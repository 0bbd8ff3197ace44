import Sponge.Descriptor.Reading

/-! # The event loop

Rules are polled as long as they are interested, and cancelled when their descriptors come to an
end. A rule is called only if it was interested when the poll was prepared. Other rules may have
been called since.
-/

namespace Sponge

open Runs

inductive Direction
  | In | Out
  deriving DecidableEq, Repr

/-- A rule over states of the type `σ`. Its callback meets an answer of the kernel. -/
structure Rule (σ ι : Type) where
  fd : σ → FileDescriptor
  direction : Direction
  callback : σ → ι → Except Exception σ
  interest : σ → Bool := fun _ => true
  cancel : σ → σ := id

namespace Rule

variable {σ ι : Type} (r : Rule σ ι) (s : σ)

/-- The number of times the descriptor has been read or written. -/
def serviceCount : UInt32 :=
  match r.direction with
  | .In => (r.fd s).readCount
  | .Out => (r.fd s).writeCount

/-- The descriptor is closed, or there is no more to read. -/
def isDefunct : Bool := (r.direction == .In && (r.fd s).eof) || (r.fd s).closed

end Rule

/-- What `poll` reports for a rule (`error` stands for `POLLERR` and `POLLNVAL`), and what its
callback will meet. -/
structure Revents (ι : Type) where
  error : Bool := false
  ready : Bool := false
  hup : Bool := false
  input : ι
  deriving DecidableEq, Repr

/-- What `poll` returns and leaves in `errno`, and what it reports. -/
structure PollAnswer (κ : Type) (ι : κ → Type) where
  ret : Int32
  errno : Int32 := 0
  revents : ∀ k, Revents (ι k)

theorem systemCall_ok {attempt : String} {ret errno mask : Int32} {n : ℤ}
    (h : systemCall attempt ret errno mask = .ok n) : ret.toInt = n := by
  unfold systemCall at h
  split_ifs at h
  exact Except.ok.inj h

theorem systemCall_error {attempt : String} {ret errno mask : Int32} {e : Exception}
    (h : systemCall attempt ret errno mask = .error e) : ret.toInt < 0 := by
  unfold systemCall at h
  split_ifs at h with hok
  exact not_le.mp fun hret => hok (Or.inl hret)

/-- Is anything reported? -/
def Revents.reported {ι : Type} (r : Revents ι) : Bool := r.error || r.ready || r.hup

namespace EventLoop

inductive Result
  | success | timeout | exit
  deriving DecidableEq, Repr

variable {κ σ : Type} {ι : κ → Type} (R : ∀ k, Rule σ (ι k))

/-- Set up an entry for each rule: is anything asked of its descriptor? -/
def prepare : List κ → σ → List (κ × Bool) × σ
  | [], s => ([], s)
  | k :: rules, s =>
    if (R k).isDefunct s then prepare rules ((R k).cancel s)
    else
      let (pollfds, s') := prepare rules s
      ((k, (R k).interest s) :: pollfds, s')

/-- Call a rule that is ready. -/
def call (k : κ) (s : σ) (input : ι k) : Except Exception σ := do
  let countBefore := (R k).serviceCount s
  let s ← (R k).callback s input
  if countBefore = (R k).serviceCount s ∧ (R k).interest s then
    .error (.runtimeError ("EventLoop: busy wait detected: " ++
      "callback did not read/write fd and is still interested"))
  else return s

def polledError : Exception := .runtimeError "EventLoop: error on polled file descriptor"

/-- What happens to a rule after a poll. It is kept, unless its descriptor was hung up and the
hangup is all that was reported. -/
def turn (k : κ) (asked : Bool) (this : Revents (ι k)) (s : σ) : Except Exception (Bool × σ) :=
  let pollReady := asked && this.ready
  if this.error then .error polledError
  else if this.hup && asked && !pollReady then .ok (false, (R k).cancel s)
  else if pollReady then do
    let s ← call R k s this.input
    return (true, s)
  else .ok (true, s)

/-- Go through the results. -/
def dispatch (revents : ∀ k, Revents (ι k)) : List (κ × Bool) → σ → Except Exception (List κ × σ)
  | [], s => .ok ([], s)
  | (k, asked) :: pollfds, s => do
    let (kept, s) ← turn R k asked (revents k) s
    let (rules, s) ← dispatch revents pollfds s
    return (if kept then k :: rules else rules, s)

/-- `EINTR`. -/
def interrupted : Int32 := 4

/-- What is reported if `poll` fails. -/
def silent (revents : ∀ k, Revents (ι k)) (k : κ) : Revents (ι k) := { input := (revents k).input }

/-- Poll once. An error other than `EINTR` is caught and forgotten. -/
def waitNextEvent (rules : List κ) (s : σ) (poll : PollAnswer κ ι) :
    Except Exception (Result × List κ × σ) :=
  let (pollfds, s) := prepare R rules s
  let rules := pollfds.map Prod.fst
  -- quit if there is nothing left to poll
  if ∀ c ∈ pollfds, c.2 = false then .ok (.exit, rules, s)
  else
    match systemCall "poll" poll.ret poll.errno with
    | .ok ready =>
      if ready = 0 then .ok (.timeout, rules, s)
      else do
        let (rules, s) ← dispatch R poll.revents pollfds s
        return (.success, rules, s)
    | .error _ =>
      if poll.errno = interrupted then .ok (.exit, rules, s)
      else do
        let (rules, s) ← dispatch R (silent poll.revents) pollfds s
        return (.success, rules, s)

variable {R} {rules rules' : List κ} {s s' : σ} {poll : PollAnswer κ ι} {result : Result}
  {pollfds : List (κ × Bool)} {revents : ∀ k, Revents (ι k)} {k : κ} {e : Exception}

/-! ### Invariants -/

/-- An invariant `I` of the rules that are left and of the states between the callbacks, and for
each rule a guard that holds when it is called: it holds if the rule is interested, and the rules
before it keep it. An answer that a callback meets is good. Only the rules in `hung` are cancelled
before their descriptors have come to an end. -/
structure Sound (R : ∀ k, Rule σ (ι k)) (before : κ → κ → Prop) (good : ∀ k, ι k → Prop)
    (hung : Set κ) (I : Set κ → σ → Prop) (G : κ → σ → Prop) : Prop where
  guards : ∀ S k s, I S s → k ∈ S → (R k).isDefunct s = false → (R k).interest s = true → G k s
  cancel : ∀ S j s, j ∉ S → I (insert j S) s → ((R j).isDefunct s = true ∨ j ∈ hung) →
    I S ((R j).cancel s) ∧ ∀ k ∈ S, G k s → G k ((R j).cancel s)
  callback : ∀ S j s input s', j ∈ S → I S s → G j s → good j input →
    (R j).callback s input = .ok s' → I S s' ∧ ∀ k ∈ S, before j k → G k s → G k s'

/-- Good answers are reported, and lone hangups only of the rules in `hung`. -/
structure GoodRevents (good : ∀ k, ι k → Prop) (hung : Set κ) (revents : ∀ k, Revents (ι k)) :
    Prop where
  input : ∀ k, good k (revents k).input
  hup : ∀ k, (revents k).hup = true → (revents k).ready = true ∨ k ∈ hung

variable {before : κ → κ → Prop} {good : ∀ k, ι k → Prop} {hung : Set κ} {I : Set κ → σ → Prop}
  {G : κ → σ → Prop}

theorem prepare_sublist (rules : List κ) (s : σ) :
    ((prepare R rules s).1.map Prod.fst).Sublist rules := by
  induction rules generalizing s with
  | nil => exact .slnil
  | cons k rules ih =>
    rw [prepare]
    split_ifs
    · exact (ih _).cons k
    · exact (ih s).cons_cons k

theorem GoodRevents.silent (h : GoodRevents good hung revents) :
    GoodRevents good hung (silent revents) :=
  ⟨h.input, fun _ hhup => absurd hhup Bool.false_ne_true⟩

theorem union_cons (p : Set κ) (k : κ) (rules : List κ) :
    p ∪ {j | j ∈ k :: rules} = insert k (p ∪ {j | j ∈ rules}) := by
  ext j
  simp [or_left_comm]

/-- After the preparations the invariant holds, and the guard of every rule that is asked for. The
rules in `p` come before the ones in the list. -/
theorem Sound.prepare (h : Sound R before good hung I G) {p : Set κ} (hnodup : rules.Nodup)
    (hp : ∀ k ∈ rules, k ∉ p) (hi : I (p ∪ {j | j ∈ rules}) s) :
    I (p ∪ {j | j ∈ (prepare R rules s).1.map Prod.fst}) (prepare R rules s).2 ∧
      (∀ c ∈ (prepare R rules s).1, c.2 = true → G c.1 (prepare R rules s).2) ∧
      ∀ k ∈ p, G k s → G k (prepare R rules s).2 := by
  induction rules generalizing s p with
  | nil => exact ⟨hi, by simp [EventLoop.prepare], fun _ _ hg => hg⟩
  | cons k rules ih =>
    obtain ⟨hk, hrest⟩ := List.nodup_cons.mp hnodup
    obtain ⟨hkp, hp⟩ := List.forall_mem_cons.mp hp
    rw [union_cons] at hi
    rw [EventLoop.prepare]
    split_ifs with hdefunct
    · have hfresh : k ∉ p ∪ {j | j ∈ rules} := not_or.mpr ⟨hkp, hk⟩
      obtain ⟨hcancel, hguards⟩ := h.cancel _ k s hfresh hi (Or.inl hdefunct)
      obtain ⟨hi', hasked, hothers⟩ := ih hrest hp hcancel
      exact ⟨hi', hasked, fun j hj hg => hothers j hj (hguards j (Or.inl hj) hg)⟩
    · have hpk : ∀ j ∈ rules, j ∉ insert k p := fun j hj =>
        not_or.mpr ⟨ne_of_mem_of_not_mem hj hk, hp j hj⟩
      obtain ⟨hi', hasked, hothers⟩ := ih hrest hpk (by rwa [Set.insert_union])
      rw [Set.insert_union, ← union_cons] at hi'
      refine ⟨hi', fun c hc hinterest => ?_, fun j hj hg => hothers j (Or.inr hj) hg⟩
      rcases List.mem_cons.mp hc with rfl | hc
      · have hg := h.guards _ k s hi (Or.inl rfl) (Bool.eq_false_iff.mpr hdefunct) hinterest
        exact hothers k (Or.inl rfl) hg
      · exact hasked c hc hinterest

theorem call_ok {input : ι k} (h : call R k s input = .ok s') :
    (R k).callback s input = .ok s' ∧
      ((R k).serviceCount s = (R k).serviceCount s' → (R k).interest s' = false) := by
  obtain ⟨s₁, hs, h⟩ := bind_ok_iff.mp h
  split_ifs at h with hbusy
  obtain rfl := Except.ok.inj h
  exact ⟨hs, fun hcount => Bool.eq_false_iff.mpr fun hinterest => hbusy ⟨hcount, hinterest⟩⟩

theorem call_error {input : ι k} (h : call R k s input = .error e) :
    (R k).callback s input = .error e ∨ ∃ s', (R k).callback s input = .ok s' ∧
      (R k).serviceCount s = (R k).serviceCount s' ∧ (R k).interest s' = true := by
  rcases bind_error_iff.mp h with hs | ⟨s₁, hs, h⟩
  · exact Or.inl hs
  · split_ifs at h with hbusy
    · exact Or.inr ⟨s₁, hs, hbusy⟩
    · cases h

/-- What follows from a lack of interest, and is kept by the cancellation of later rules, holds
after the preparations. -/
theorem prepare_idle {Q : κ → σ → Prop}
    (hidle : ∀ k s, (R k).interest s = false → Q k s)
    (hcancel : ∀ k j s, before k j → Q k s → Q k ((R j).cancel s))
    (hbefore : rules.Pairwise before) :
    (∀ c ∈ (prepare R rules s).1, c.2 = false → Q c.1 (prepare R rules s).2) ∧
      ∀ k, (∀ j ∈ rules, before k j) → Q k s → Q k (prepare R rules s).2 := by
  induction rules generalizing s with
  | nil => exact ⟨by simp [prepare], fun _ _ hq => hq⟩
  | cons j rules ih =>
    obtain ⟨hj, hrest⟩ := List.pairwise_cons.mp hbefore
    rw [prepare]
    split_ifs
    · obtain ⟨hentries, hkept⟩ := ih (s := (R j).cancel s) hrest
      refine ⟨hentries, fun k hk hq => ?_⟩
      obtain ⟨hkj, hk⟩ := List.forall_mem_cons.mp hk
      exact hkept k hk (hcancel k j s hkj hq)
    · obtain ⟨hentries, hkept⟩ := ih (s := s) hrest
      refine ⟨fun c hc hcidle => ?_, fun k hk => hkept k (List.forall_mem_cons.mp hk).2⟩
      rcases List.mem_cons.mp hc with rfl | hc
      · exact hkept j hj (hidle j s hcidle)
      · exact hentries c hc hcidle

theorem turn_ok {asked kept : Bool} {this : Revents (ι k)}
    (h : turn R k asked this s = .ok (kept, s')) : this.error = false ∧
      ((kept = true ∧ asked = true ∧ this.ready = true ∧ call R k s this.input = .ok s') ∨
        (kept = false ∧ asked = true ∧ this.ready = false ∧ this.hup = true ∧
          s' = (R k).cancel s) ∨
        (kept = true ∧ s' = s ∧ (asked = true → this.ready = false ∧ this.hup = false))) := by
  unfold turn at h
  simp only at h
  split_ifs at h with herror hhup hready
  · obtain ⟨rfl, rfl⟩ := Prod.mk.injEq _ _ _ _ ▸ Except.ok.inj h
    simp only [Bool.and_eq_true, Bool.not_eq_true'] at hhup
    obtain ⟨⟨hhup, hasked⟩, hnot⟩ := hhup
    have hready : this.ready = false := by simpa [hasked] using hnot
    exact ⟨Bool.eq_false_iff.mpr herror, Or.inr (Or.inl ⟨rfl, hasked, hready, hhup, rfl⟩)⟩
  · obtain ⟨s₁, hcall, h⟩ := bind_ok_iff.mp h
    obtain ⟨rfl, rfl⟩ := Prod.mk.injEq _ _ _ _ ▸ Except.ok.inj h
    obtain ⟨hasked, hready⟩ := Bool.and_eq_true _ _ ▸ hready
    exact ⟨Bool.eq_false_iff.mpr herror, Or.inl ⟨rfl, hasked, hready, hcall⟩⟩
  · obtain ⟨rfl, rfl⟩ := Prod.mk.injEq _ _ _ _ ▸ Except.ok.inj h
    refine ⟨Bool.eq_false_iff.mpr herror, Or.inr (Or.inr ⟨rfl, rfl, fun hasked => ?_⟩)⟩
    have hquiet : this.ready = false := by simpa [hasked] using hready
    exact ⟨hquiet, by simpa [hasked, hquiet] using hhup⟩

theorem dispatch_cons {asked : Bool}
    (h : dispatch R revents ((k, asked) :: pollfds) s = .ok (rules', s')) :
    ∃ kept s₁ rules₁, turn R k asked (revents k) s = .ok (kept, s₁) ∧
      dispatch R revents pollfds s₁ = .ok (rules₁, s') ∧
      rules' = if kept then k :: rules₁ else rules₁ := by
  obtain ⟨⟨kept, s₁⟩, hturn, h⟩ := bind_ok_iff.mp h
  obtain ⟨⟨rules₁, s₂⟩, hrest, h⟩ := bind_ok_iff.mp h
  obtain ⟨rfl, rfl⟩ := Prod.mk.injEq _ _ _ _ ▸ Except.ok.inj h
  exact ⟨kept, s₁, rules₁, hturn, hrest, rfl⟩

theorem dispatch_sublist (h : dispatch R revents pollfds s = .ok (rules', s')) :
    rules'.Sublist (pollfds.map Prod.fst) := by
  induction pollfds generalizing s rules' with
  | nil =>
    obtain ⟨rfl, rfl⟩ := Prod.mk.injEq _ _ _ _ ▸ Except.ok.inj h
    exact .slnil
  | cons c pollfds ih =>
    obtain ⟨kept, s₁, rules₁, -, hrest, rfl⟩ := dispatch_cons h
    cases kept with
    | true => exact (ih hrest).cons_cons c.1
    | false => exact (ih hrest).cons c.1

theorem Sound.turn (h : Sound R before good hung I G) {asked kept : Bool} {S : Set κ}
    (hgood : GoodRevents good hung revents) (hk : k ∉ S) (hi : I (insert k S) s)
    (hg : asked = true → G k s) (hturn : turn R k asked (revents k) s = .ok (kept, s')) :
    I (if kept then insert k S else S) s' ∧ ∀ j ∈ S, before k j → G j s → G j s' := by
  obtain ⟨-, ⟨rfl, hasked, -, hcall⟩ | ⟨rfl, -, hready, hhup, rfl⟩ | ⟨rfl, rfl, -⟩⟩ := turn_ok hturn
  · obtain ⟨hi', hguards⟩ :=
      h.callback _ k s _ s' (Or.inl rfl) hi (hg hasked) (hgood.input k) (call_ok hcall).1
    exact ⟨hi', fun j hj => hguards j (Or.inr hj)⟩
  · have hhung : k ∈ hung := (hgood.hup k hhup).resolve_left (Bool.eq_false_iff.mp hready)
    obtain ⟨hi', hguards⟩ := h.cancel S k s hk hi (Or.inr hhung)
    exact ⟨hi', fun j hj _ => hguards j hj⟩
  · exact ⟨hi, fun _ _ _ hg => hg⟩

theorem Sound.dispatch (h : Sound R before good hung I G) {p : Set κ}
    (hgood : GoodRevents good hung revents) (hnodup : (pollfds.map Prod.fst).Nodup)
    (hbefore : (pollfds.map Prod.fst).Pairwise before) (hp : ∀ c ∈ pollfds, c.1 ∉ p)
    (hi : I (p ∪ {j | j ∈ pollfds.map Prod.fst}) s) (hg : ∀ c ∈ pollfds, c.2 = true → G c.1 s)
    (hs : dispatch R revents pollfds s = .ok (rules', s')) : I (p ∪ {j | j ∈ rules'}) s' := by
  induction pollfds generalizing s rules' p with
  | nil =>
    obtain ⟨rfl, rfl⟩ := Prod.mk.injEq _ _ _ _ ▸ Except.ok.inj hs
    exact hi
  | cons c pollfds ih =>
    obtain ⟨k, asked⟩ := c
    obtain ⟨kept, s₁, rules₁, hturn, hrest, rfl⟩ := dispatch_cons hs
    obtain ⟨hk, hnodup⟩ := List.nodup_cons.mp hnodup
    obtain ⟨hfirst, hbefore⟩ := List.pairwise_cons.mp hbefore
    obtain ⟨hkp, hp⟩ := List.forall_mem_cons.mp hp
    have hfresh : k ∉ p ∪ {j | j ∈ pollfds.map Prod.fst} := not_or.mpr ⟨hkp, hk⟩
    rw [List.map_cons, union_cons] at hi
    obtain ⟨hi₁, hguards⟩ := h.turn hgood hfresh hi (hg (k, asked) List.mem_cons_self) hturn
    have hg₁ : ∀ c ∈ pollfds, c.2 = true → G c.1 s₁ := fun c hc hasked => by
      have hmem : c.1 ∈ pollfds.map Prod.fst := List.mem_map_of_mem hc
      exact hguards c.1 (Or.inr hmem) (hfirst c.1 hmem) (hg c (List.mem_cons_of_mem _ hc) hasked)
    cases kept with
    | true =>
      have hpk : ∀ c ∈ pollfds, c.1 ∉ insert k p := fun c hc =>
        not_or.mpr ⟨ne_of_mem_of_not_mem (List.mem_map_of_mem hc) hk, hp c hc⟩
      have hi' := ih hnodup hbefore hpk (by rwa [Set.insert_union]) hg₁ hrest
      rw [Set.insert_union] at hi'
      rwa [if_pos rfl, union_cons]
    | false => exact ih hnodup hbefore hp hi₁ hg₁ hrest

/-- How a wait ends. -/
inductive Ends (R : ∀ k, Rule σ (ι k)) (pollfds : List (κ × Bool)) (s : σ)
    (poll : PollAnswer κ ι) : Result → List κ → σ → Prop
  | idle (h : ∀ c ∈ pollfds, c.2 = false) : Ends R pollfds s poll .exit (pollfds.map Prod.fst) s
  | interrupted {e : Exception} (h : systemCall "poll" poll.ret poll.errno = .error e)
      (herrno : poll.errno = interrupted) :
      Ends R pollfds s poll .exit (pollfds.map Prod.fst) s
  | timeout (h : systemCall "poll" poll.ret poll.errno = .ok 0) :
      Ends R pollfds s poll .timeout (pollfds.map Prod.fst) s
  | dispatched {n : ℤ} {rules : List κ} {s' : σ} (hn : n ≠ 0)
      (h : systemCall "poll" poll.ret poll.errno = .ok n)
      (hs : dispatch R poll.revents pollfds s = .ok (rules, s')) :
      Ends R pollfds s poll .success rules s'
  | failed {e : Exception} {rules : List κ} {s' : σ}
      (h : systemCall "poll" poll.ret poll.errno = .error e)
      (hs : dispatch R (silent poll.revents) pollfds s = .ok (rules, s')) :
      Ends R pollfds s poll .success rules s'

theorem waitNextEvent_ok (h : waitNextEvent R rules s poll = .ok (result, rules', s')) :
    Ends R (prepare R rules s).1 (prepare R rules s).2 poll result rules' s' := by
  unfold waitNextEvent at h
  simp only at h
  by_cases hidle : ∀ c ∈ (prepare R rules s).1, c.2 = false
  · rw [if_pos hidle] at h
    cases h
    exact .idle hidle
  · rw [if_neg hidle] at h
    cases hpoll : systemCall "poll" poll.ret poll.errno with
    | ok n =>
      rw [hpoll] at h
      simp only at h
      split_ifs at h with hn
      · cases h
        exact .timeout (hn ▸ hpoll)
      · obtain ⟨⟨rules₁, s₁⟩, hs, h⟩ := bind_ok_iff.mp h
        cases h
        exact .dispatched hn hpoll hs
    | error e =>
      rw [hpoll] at h
      simp only at h
      split_ifs at h with herrno
      · cases h
        exact .interrupted hpoll herrno
      · obtain ⟨⟨rules₁, s₁⟩, hs, h⟩ := bind_ok_iff.mp h
        cases h
        exact .failed hpoll hs

theorem waitNextEvent_error (h : waitNextEvent R rules s poll = .error e) :
    ∃ revents, (revents = poll.revents ∨ revents = silent poll.revents) ∧
      dispatch R revents (prepare R rules s).1 (prepare R rules s).2 = .error e := by
  unfold waitNextEvent at h
  simp only at h
  by_cases hidle : ∀ c ∈ (prepare R rules s).1, c.2 = false
  · rw [if_pos hidle] at h
    cases h
  · rw [if_neg hidle] at h
    cases hpoll : systemCall "poll" poll.ret poll.errno with
    | ok n =>
      rw [hpoll] at h
      simp only at h
      split_ifs at h with hn
      rcases bind_error_iff.mp h with hs | ⟨a, -, h⟩
      · exact ⟨_, Or.inl rfl, hs⟩
      · cases h
    | error e₁ =>
      rw [hpoll] at h
      simp only at h
      split_ifs at h with herrno
      rcases bind_error_iff.mp h with hs | ⟨a, -, h⟩
      · exact ⟨_, Or.inr rfl, hs⟩
      · cases h

theorem Sound.waitNextEvent (h : Sound R before good hung I G)
    (hgood : GoodRevents good hung poll.revents) (hnodup : rules.Nodup)
    (hbefore : rules.Pairwise before) (hi : I {j | j ∈ rules} s)
    (hs : waitNextEvent R rules s poll = .ok (result, rules', s')) :
    I {j | j ∈ rules'} s' ∧ rules'.Sublist rules := by
  have hsublist := prepare_sublist (R := R) rules s
  rw [← Set.empty_union {j | j ∈ rules}] at hi
  obtain ⟨hi', hg, -⟩ := h.prepare hnodup (fun _ _ => Set.notMem_empty _) hi
  have hnodup' := hnodup.sublist hsublist
  have hbefore' := hbefore.sublist hsublist
  have hp : ∀ c ∈ (EventLoop.prepare R rules s).1, c.1 ∉ (∅ : Set κ) :=
    fun _ _ => Set.notMem_empty _
  rw [← Set.empty_union {j | j ∈ rules'}]
  cases waitNextEvent_ok hs with
  | idle | interrupted | timeout => exact ⟨hi', hsublist⟩
  | dispatched _ _ hs =>
    exact ⟨h.dispatch hgood hnodup' hbefore' hp hi' hg hs, (dispatch_sublist hs).trans hsublist⟩
  | failed _ hs =>
    exact ⟨h.dispatch hgood.silent hnodup' hbefore' hp hi' hg hs,
      (dispatch_sublist hs).trans hsublist⟩

/-- An exception is thrown for an error that was reported, or by the callback of a rule whose guard
holds, or because the rule is still interested and was not served. -/
def Throws (R : ∀ k, Rule σ (ι k)) (I : Set κ → σ → Prop) (G : κ → σ → Prop)
    (revents : ∀ k, Revents (ι k)) (e : Exception) : Prop :=
  ∃ k, ((revents k).error = true ∧ e = polledError) ∨ ∃ S s, k ∈ S ∧ I S s ∧ G k s ∧
    ((R k).callback s (revents k).input = .error e ∨
      ∃ s', (R k).callback s (revents k).input = .ok s' ∧
        (R k).serviceCount s = (R k).serviceCount s' ∧ (R k).interest s' = true)

theorem Sound.dispatch_error (h : Sound R before good hung I G) {p : Set κ}
    (hgood : GoodRevents good hung revents) (hnodup : (pollfds.map Prod.fst).Nodup)
    (hbefore : (pollfds.map Prod.fst).Pairwise before) (hp : ∀ c ∈ pollfds, c.1 ∉ p)
    (hi : I (p ∪ {j | j ∈ pollfds.map Prod.fst}) s) (hg : ∀ c ∈ pollfds, c.2 = true → G c.1 s)
    (hs : EventLoop.dispatch R revents pollfds s = .error e) : Throws R I G revents e := by
  induction pollfds generalizing s p with
  | nil => cases hs
  | cons c pollfds ih =>
    obtain ⟨k, asked⟩ := c
    obtain ⟨hk, hnodup⟩ := List.nodup_cons.mp hnodup
    obtain ⟨hfirst, hbefore⟩ := List.pairwise_cons.mp hbefore
    obtain ⟨hkp, hp⟩ := List.forall_mem_cons.mp hp
    rw [List.map_cons, union_cons] at hi
    rcases bind_error_iff.mp hs with hturn | ⟨⟨kept, s₁⟩, hturn, hs⟩
    · unfold EventLoop.turn at hturn
      simp only at hturn
      split_ifs at hturn with herror hhup hready
      · exact ⟨k, Or.inl ⟨herror, (Except.error.inj hturn).symm⟩⟩
      · rcases bind_error_iff.mp hturn with hcall | ⟨s₁, -, hturn⟩
        · have hasked : asked = true := (Bool.and_eq_true _ _ ▸ hready).1
          exact ⟨k, Or.inr ⟨_, s, Or.inl rfl, hi, hg _ List.mem_cons_self hasked,
            call_error hcall⟩⟩
        · cases hturn
    · have hfresh : k ∉ p ∪ {j | j ∈ pollfds.map Prod.fst} := not_or.mpr ⟨hkp, hk⟩
      obtain ⟨hi₁, hguards⟩ := h.turn hgood hfresh hi (hg (k, asked) List.mem_cons_self) hturn
      have hg₁ : ∀ c ∈ pollfds, c.2 = true → G c.1 s₁ := fun c hc hasked => by
        have hmem : c.1 ∈ pollfds.map Prod.fst := List.mem_map_of_mem hc
        exact hguards c.1 (Or.inr hmem) (hfirst c.1 hmem)
          (hg c (List.mem_cons_of_mem _ hc) hasked)
      have hrest : EventLoop.dispatch R revents pollfds s₁ = .error e := by
        rcases bind_error_iff.mp hs with hrest | ⟨result, -, hs⟩
        · exact hrest
        · cases hs
      cases kept with
      | true =>
        have hpk : ∀ c ∈ pollfds, c.1 ∉ insert k p := fun c hc =>
          not_or.mpr ⟨ne_of_mem_of_not_mem (List.mem_map_of_mem hc) hk, hp c hc⟩
        exact ih hnodup hbefore hpk (by rwa [Set.insert_union]) hg₁ hrest
      | false => exact ih hnodup hbefore hp hi₁ hg₁ hrest

theorem Sound.waitNextEvent_error (h : Sound R before good hung I G)
    (hgood : GoodRevents good hung poll.revents) (hnodup : rules.Nodup)
    (hbefore : rules.Pairwise before) (hi : I {j | j ∈ rules} s)
    (hs : EventLoop.waitNextEvent R rules s poll = .error e) : Throws R I G poll.revents e := by
  have hsublist := prepare_sublist (R := R) rules s
  rw [← Set.empty_union {j | j ∈ rules}] at hi
  obtain ⟨hi', hg, -⟩ := h.prepare hnodup (fun _ _ => Set.notMem_empty _) hi
  have hnodup' := hnodup.sublist hsublist
  have hbefore' := hbefore.sublist hsublist
  have hp : ∀ c ∈ (EventLoop.prepare R rules s).1, c.1 ∉ (∅ : Set κ) :=
    fun _ _ => Set.notMem_empty _
  obtain ⟨revents, rfl | rfl, hd⟩ := EventLoop.waitNextEvent_error hs
  · exact h.dispatch_error hgood hnodup' hbefore' hp hi' hg hd
  · obtain ⟨k, ⟨herror, -⟩ | hcall⟩ :=
      h.dispatch_error hgood.silent hnodup' hbefore' hp hi' hg hd
    · cases herror
    · exact ⟨k, Or.inr hcall⟩

/-! ### Progress -/

/-- The kernel counts the entries for which it reports something, and reports that a descriptor is
ready only if it was asked. If it fails, it reports nothing. -/
structure HonestPoll (pollfds : List (κ × Bool)) (poll : PollAnswer κ ι) : Prop where
  count : 0 ≤ poll.ret.toInt →
    poll.ret.toInt = (pollfds.countP fun c => (poll.revents c.1).reported : ℕ)
  failed : poll.ret.toInt < 0 → poll.errno ≠ 0 ∧ ∀ k, (poll.revents k).reported = false
  asked : ∀ c ∈ pollfds, (poll.revents c.1).ready = true → c.2 = true

/-- After the preparations, in which rules at their end are erased, a rule is erased, or one is
called and is served or loses interest. -/
def Progress (R : ∀ k, Rule σ (ι k)) (revents : ∀ k, Revents (ι k)) (pollfds : List (κ × Bool))
    (s : σ) (rules : List κ) : Prop :=
  rules.length < pollfds.length ∨ ∃ earlier k later rules₁ s₁ s₂,
    pollfds = earlier ++ (k, true) :: later ∧ (revents k).ready = true ∧
      dispatch R revents earlier s = .ok (rules₁, s₁) ∧
      (R k).callback s₁ (revents k).input = .ok s₂ ∧
      ((R k).serviceCount s₁ ≠ (R k).serviceCount s₂ ∨ (R k).interest s₂ = false)

theorem dispatch_progress (h : dispatch R revents pollfds s = .ok (rules', s'))
    (hasked : ∃ c ∈ pollfds, c.2 = true ∧ (revents c.1).reported = true) :
    Progress R revents pollfds s rules' := by
  induction pollfds generalizing s rules' with
  | nil => simp at hasked
  | cons c pollfds ih =>
    obtain ⟨k, asked⟩ := c
    obtain ⟨kept, s₁, rules₁, hturn, hrest, rfl⟩ := dispatch_cons h
    have hlen := (dispatch_sublist hrest).length_le
    rw [List.length_map] at hlen
    obtain ⟨herror, hcases⟩ := turn_ok hturn
    rcases hcases with ⟨rfl, rfl, hready, hcall⟩ | ⟨rfl, -, -, -, -⟩ | ⟨rfl, rfl, hquiet⟩
    · obtain ⟨hcallback, hserved⟩ := call_ok hcall
      exact Or.inr ⟨[], k, pollfds, [], s, s₁, rfl, hready, rfl, hcallback,
        (ne_or_eq _ _).imp_right hserved⟩
    · exact Or.inl (Nat.lt_succ_of_le hlen)
    · have hlater : ∃ c ∈ pollfds, c.2 = true ∧ (revents c.1).reported = true := by
        obtain ⟨c, hc, hcasked, hreported⟩ := hasked
        rcases List.mem_cons.mp hc with rfl | hc
        · obtain ⟨hready, hhup⟩ := hquiet hcasked
          simp [Revents.reported, herror, hready, hhup] at hreported
        · exact ⟨c, hc, hcasked, hreported⟩
      rcases ih hrest hlater with hshort |
        ⟨earlier, j, later, rules₂, s₂, s₃, rfl, hready, hearlier, hserved⟩
      · exact Or.inl (Nat.succ_lt_succ hshort)
      · refine Or.inr ⟨(k, asked) :: earlier, j, later, k :: rules₂, s₂, s₃, rfl, hready, ?_,
          hserved⟩
        rw [dispatch, hturn]
        simp only [bind, Except.bind, hearlier]
        rfl

theorem dispatch_quiet (h : dispatch R revents pollfds s = .ok (rules', s'))
    (hquiet : ∀ c ∈ pollfds, c.2 = true → (revents c.1).reported = false) :
    rules' = pollfds.map Prod.fst ∧ s' = s := by
  induction pollfds generalizing s rules' with
  | nil =>
    obtain ⟨rfl, rfl⟩ := Prod.mk.injEq _ _ _ _ ▸ Except.ok.inj h
    exact ⟨rfl, rfl⟩
  | cons c pollfds ih =>
    obtain ⟨k, asked⟩ := c
    obtain ⟨kept, s₁, rules₁, hturn, hrest, rfl⟩ := dispatch_cons h
    have hfirst := hquiet (k, asked) List.mem_cons_self
    simp only [Revents.reported, Bool.or_eq_false_iff] at hfirst
    obtain ⟨-, ⟨-, hasked, hready, -⟩ | ⟨-, hasked, -, hhup, -⟩ | ⟨rfl, rfl, -⟩⟩ := turn_ok hturn
    · rw [(hfirst hasked).1.2] at hready
      cases hready
    · rw [(hfirst hasked).2] at hhup
      cases hhup
    · obtain ⟨rfl, rfl⟩ := ih hrest fun c hc => hquiet c (List.mem_cons_of_mem _ hc)
      exact ⟨rfl, rfl⟩

theorem dispatch_errorless (h : dispatch R revents pollfds s = .ok (rules', s')) :
    ∀ c ∈ pollfds, (revents c.1).error = false := by
  induction pollfds generalizing s rules' with
  | nil => simp
  | cons c pollfds ih =>
    obtain ⟨kept, s₁, rules₁, hturn, hrest, -⟩ := dispatch_cons h
    exact List.forall_mem_cons.mpr ⟨(turn_ok hturn).1, ih hrest⟩

/-- After its preparations, a wait that reports success makes progress exactly if something is
reported of a descriptor that was asked for. If not, it does nothing more: `poll` has failed, or
what was reported is that descriptors were hung up for which there is no interest. -/
theorem success_progress_iff (hhonest : HonestPoll (prepare R rules s).1 poll)
    (h : waitNextEvent R rules s poll = .ok (.success, rules', s')) :
    let pollfds := (prepare R rules s).1
    (Progress R poll.revents pollfds (prepare R rules s).2 rules' ↔
      ∃ c ∈ pollfds, c.2 = true ∧ (poll.revents c.1).reported = true) ∧
    (¬ Progress R poll.revents pollfds (prepare R rules s).2 rules' →
      rules' = pollfds.map Prod.fst ∧ s' = (prepare R rules s).2 ∧
        (poll.ret.toInt < 0 ∨ ∃ c ∈ pollfds, c.2 = false ∧ (poll.revents c.1).hup = true)) := by
  intro pollfds
  have hasked : Progress R poll.revents pollfds (prepare R rules s).2 rules' →
      rules' = pollfds.map Prod.fst →
        ∃ c ∈ pollfds, c.2 = true ∧ (poll.revents c.1).reported = true := by
    rintro (hshort | ⟨earlier, k, later, -, -, -, heq, hready, -⟩) hsame
    · rw [hsame, List.length_map] at hshort
      exact absurd hshort (lt_irrefl _)
    · refine ⟨(k, true), ?_, rfl, by simp [Revents.reported, hready]⟩
      rw [heq]
      exact List.mem_append_right _ List.mem_cons_self
  by_cases hreported : ∃ c ∈ pollfds, c.2 = true ∧ (poll.revents c.1).reported = true
  · cases waitNextEvent_ok h with
    | dispatched hn hpoll hs =>
      have hp := dispatch_progress hs hreported
      exact ⟨iff_of_true hp hreported, fun hno => absurd hp hno⟩
    | failed hpoll hs =>
      obtain ⟨c, -, -, hc⟩ := hreported
      rw [(hhonest.failed (systemCall_error hpoll)).2] at hc
      cases hc
  · have hquiet : ∀ c ∈ pollfds, c.2 = true → (poll.revents c.1).reported = false :=
      fun c hc hcasked => Bool.eq_false_iff.mpr fun hr => hreported ⟨c, hc, hcasked, hr⟩
    cases waitNextEvent_ok h with
    | dispatched hn hpoll hs =>
      obtain ⟨rfl, rfl⟩ := dispatch_quiet hs hquiet
      refine ⟨iff_of_false (fun hp => hreported (hasked hp rfl)) hreported, fun _ => ⟨rfl, rfl, ?_⟩⟩
      by_cases hret : poll.ret.toInt < 0
      · exact Or.inl hret
      · obtain rfl := systemCall_ok hpoll
        have hcount : poll.ret.toInt =
            (pollfds.countP fun c => (poll.revents c.1).reported : ℕ) :=
          hhonest.count (not_lt.mp hret)
        obtain ⟨c, hc, hr⟩ : ∃ c ∈ pollfds, (poll.revents c.1).reported = true := by
          apply List.countP_pos_iff.mp
          omega
        have hnot : c.2 = false :=
          Bool.eq_false_iff.mpr fun hcasked => hreported ⟨c, hc, hcasked, hr⟩
        have hready : (poll.revents c.1).ready = false :=
          Bool.eq_false_iff.mpr fun hready => by
            rw [hhonest.asked c hc hready] at hnot
            cases hnot
        simp only [Revents.reported, dispatch_errorless hs c hc, hready, Bool.false_or] at hr
        exact Or.inr ⟨c, hc, hnot, hr⟩
    | failed hpoll hs =>
      obtain ⟨rfl, rfl⟩ := dispatch_quiet hs fun _ _ _ => rfl
      exact ⟨iff_of_false (fun hp => hreported (hasked hp rfl)) hreported,
        fun _ => ⟨rfl, rfl, Or.inl (systemCall_error hpoll)⟩⟩

/-- A hangup of a descriptor for which there is no interest keeps `poll` from waiting. -/
theorem success_without_progress :
    let R : ∀ _ : Bool, Rule Unit Unit := fun k =>
      { fd := fun _ => {}, direction := .Out, callback := fun s _ => .ok s, interest := fun _ => k }
    let poll : PollAnswer Bool fun _ => Unit :=
      { ret := 1, revents := fun k => { hup := !k, input := () } }
    waitNextEvent R [true, false] () poll = .ok (.success, [true, false], ()) ∧
      ¬ Progress R poll.revents (prepare R [true, false] ()).1 () [true, false] := by
  intro R poll
  have hwait : waitNextEvent R [true, false] () poll = .ok (.success, [true, false], ()) := rfl
  refine ⟨hwait, fun hp => ?_⟩
  obtain ⟨c, hc, hasked, hreported⟩ :=
    (success_progress_iff ⟨fun _ => rfl, by decide, by decide⟩ hwait).1.mp hp
  have hpollfds : (prepare R [true, false] ()).1 = [(true, true), (false, false)] := rfl
  rw [hpollfds] at hc
  obtain rfl | rfl : c = (true, true) ∨ c = (false, false) := by simpa using hc
  · cases hreported
  · cases hasked

end EventLoop

end Sponge
