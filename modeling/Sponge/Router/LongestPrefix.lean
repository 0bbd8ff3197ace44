import Sponge.Library.KeyedList
import Sponge.Router.Basic

/-! # Longest-prefix match

The scan keeps the longest match, and two distinct routes of one length never match the
same address. Only a direct route that ends the scan can hide a longer match behind it.
-/

namespace Sponge

namespace Route

/-- The address and the prefix of the route agree in their high-order bits. -/
def Matches (r : Route) (dst : UInt32) : Prop :=
  dst.toNat / 2 ^ (32 - r.prefixLength.toNat) =
    r.routePrefix.toNat / 2 ^ (32 - r.prefixLength.toNat)

instance (r : Route) (dst : UInt32) : Decidable (r.Matches dst) :=
  inferInstanceAs (Decidable (_ = _))

/-- The two routes have the same length and the same masked prefix. -/
def SamePrefix (r r' : Route) : Prop :=
  r.prefixLength = r'.prefixLength ∧ r'.Matches r.routePrefix

instance (r r' : Route) : Decidable (r.SamePrefix r') := inferInstanceAs (Decidable (_ ∧ _))

/-- The interface and the next hop that the route gives for an address. -/
def target (r : Route) (dst : UInt32) : ℕ × Address :=
  (r.interfaceNum, r.nextHop.getD (.fromIpv4Numeric dst))

/-- A route of the list that matches, and none that matches is longer. -/
structure Longest (r : Route) (routes : List Route) (dst : UInt32) : Prop where
  mem : r ∈ routes
  isMatch : r.Matches dst
  le : ∀ r' ∈ routes, r'.Matches dst → r'.prefixLength ≤ r.prefixLength

/-- A route of the list that matches; the matches before it are not longer, and those behind it are
shorter. -/
structure Leads (r : Route) (routes : List Route) (dst : UInt32) : Prop where
  isMatch : r.Matches dst
  split : ∃ before after, routes = before ++ r :: after ∧
    (∀ r' ∈ before, r'.Matches dst → r'.prefixLength ≤ r.prefixLength) ∧
    ∀ r' ∈ after, r'.Matches dst → r'.prefixLength < r.prefixLength

/-- A direct route that matches, and no route before it is a longer match. -/
structure Stops (d : Route) (dst : UInt32) (before : List Route) : Prop where
  direct : d.nextHop = none
  isMatch : d.Matches dst
  le : ∀ r ∈ before, r.Matches dst → r.prefixLength ≤ d.prefixLength

theorem Matches.samePrefix {r r' : Route} {dst : UInt32} (h : r.Matches dst) (h' : r'.Matches dst)
    (hlen : r.prefixLength = r'.prefixLength) : r.SamePrefix r' := by
  refine ⟨hlen, ?_⟩
  unfold Matches at h h' ⊢
  rw [← h', ← hlen, h]

theorem Leads.longest {r : Route} {routes : List Route} {dst : UInt32} (h : r.Leads routes dst) :
    r.Longest routes dst := by
  obtain ⟨before, after, rfl, hbefore, hafter⟩ := h.split
  refine ⟨by simp, h.isMatch, fun r' hr' hm => ?_⟩
  rcases List.mem_append.mp hr' with hr' | hr'
  · exact hbefore r' hr' hm
  · rcases List.mem_cons.mp hr' with rfl | hr'
    · exact UInt8.le_refl _
    · exact UInt8.le_of_lt (hafter r' hr' hm)

/-- At most one route leads: of two, each would be behind the other. -/
theorem Leads.unique {r d : Route} {routes : List Route} {dst : UInt32} (h : r.Leads routes dst)
    (hd : d.Leads routes dst) : r = d := by
  obtain ⟨before, after, rfl, hbefore, hafter⟩ := h.split
  obtain ⟨before', after', heq, hbefore', hafter'⟩ := hd.split
  rcases List.append_eq_append_iff.mp heq with ⟨mid, rfl, hmid⟩ | ⟨mid, rfl, hmid⟩
  · cases mid with
    | nil => exact (List.cons.inj hmid).1
    | cons c mid =>
      obtain ⟨rfl, rfl⟩ := List.cons.inj hmid
      have hlt := hafter d (by simp) hd.isMatch
      exact absurd (hbefore' r (by simp) h.isMatch) (UInt8.not_le.mpr hlt)
  · cases mid with
    | nil => exact (List.cons.inj hmid).1.symm
    | cons c mid =>
      obtain ⟨rfl, rfl⟩ := List.cons.inj hmid
      have hlt := hafter' r (by simp) h.isMatch
      exact absurd (hbefore d (by simp) hd.isMatch) (UInt8.not_le.mpr hlt)

theorem SamePrefix.symm {r r' : Route} (h : r.SamePrefix r') : r'.SamePrefix r := by
  obtain ⟨hlen, hm⟩ := h
  refine ⟨hlen.symm, ?_⟩
  unfold Matches at hm ⊢
  rw [hlen, hm]

end Route

/-- No route of the list ends the scan. -/
def Uncut (dst : UInt32) (routes : List Route) : Prop :=
  ∀ before d after, routes = before ++ d :: after → ¬ d.Stops dst before

/-- The longest match decides; without a match, nothing is selected. -/
structure LongestMatch (routes : List Route) (dst : UInt32) (selected : Option (ℕ × Address)) :
    Prop where
  longest : ∀ r : Route, r.Longest routes dst → selected = some (r.target dst)
  noMatch : (∀ r ∈ routes, ¬ r.Matches dst) → selected = none

/-- The first direct route that ends the scan gives the same interface and the same next hop as
every longest match. -/
def CutHarmless (routes : List Route) (dst : UInt32) : Prop :=
  ∀ before d after, routes = before ++ d :: after → Uncut dst before → d.Stops dst before →
    ∀ r : Route, r.Longest routes dst → r.target dst = d.target dst

/-- The route decides about an address: it is direct and ends the scan, or no route does and it
leads. -/
def Route.Decides (r : Route) (routes : List Route) (dst : UInt32) : Prop :=
  (∃ before after, routes = before ++ r :: after ∧ Uncut dst before ∧ r.Stops dst before) ∨
    (Uncut dst routes ∧ r.Leads routes dst)

variable {beyond : UInt32 → UInt8 → UInt32} {dst : UInt32} {routes before rest : List Route}
  {r d : Route} {s : Scan}

theorem uncut_nil : Uncut dst [] := by
  intro before d after h
  simp at h

theorem Uncut.concat (h : Uncut dst before) (hr : ¬ r.Stops dst before) :
    Uncut dst (before ++ [r]) := by
  intro before' d after heq
  rcases List.eq_nil_or_concat after with rfl | ⟨after, e, rfl⟩
  · obtain ⟨rfl, hd⟩ := List.append_inj' heq rfl
    cases hd
    exact hr
  · rw [List.concat_eq_append, ← List.cons_append, ← List.append_assoc] at heq
    exact h _ _ _ (List.append_inj' heq rfl).1

theorem Uncut.unique {before' after after' : List Route} {d' : Route}
    (heq : before ++ d :: after = before' ++ d' :: after') (h : Uncut dst before)
    (h' : Uncut dst before') (hd : d.Stops dst before) (hd' : d'.Stops dst before') : d = d' := by
  rcases List.append_eq_append_iff.mp heq with ⟨mid, rfl, hmid⟩ | ⟨mid, rfl, hmid⟩
  · cases mid with
    | nil => exact (List.cons.inj hmid).1
    | cons c mid =>
      obtain ⟨rfl, -⟩ := List.cons.inj hmid
      exact absurd hd (h' _ _ _ rfl)
  · cases mid with
    | nil => exact (List.cons.inj hmid).1.symm
    | cons c mid =>
      obtain ⟨rfl, -⟩ := List.cons.inj hmid
      exact absurd hd' (h _ _ _ rfl)

theorem Route.Decides.unique (h : r.Decides routes dst) (hd : d.Decides routes dst) : r = d := by
  rcases h with ⟨before, after, heq, huncut, hstop⟩ | ⟨huncut, hleads⟩ <;>
    rcases hd with ⟨before', after', heq', huncut', hstop'⟩ | ⟨huncut', hleads'⟩
  · exact Uncut.unique (heq.symm.trans heq') huncut huncut' hstop hstop'
  · exact absurd hstop (huncut' _ _ _ heq)
  · exact absurd hstop' (huncut _ _ _ heq')
  · exact hleads.unique hleads'

theorem Route.Decides.mem_matches (h : r.Decides routes dst) : r ∈ routes ∧ r.Matches dst := by
  rcases h with ⟨before, after, rfl, -, hstop⟩ | ⟨-, hleads⟩
  · exact ⟨by simp, hstop.isMatch⟩
  · exact ⟨hleads.longest.mem, hleads.isMatch⟩

/-- What the scan selects. -/
def Scan.selected (s : Scan) : Option (ℕ × Address) := s.addr.map fun addr => (s.interfaceNum, addr)

/-- The scan knows the longest match among the routes so far. -/
structure Scan.Knows (s : Scan) (dst : UInt32) (routes : List Route) : Prop where
  noMatch : s.addr = none → s.max = 0 ∧ ∀ r ∈ routes, ¬ r.Matches dst
  longest : ∀ addr, s.addr = some addr →
    ∃ r : Route, r.Longest routes dst ∧ r.prefixLength = s.max ∧
      r.target dst = (s.interfaceNum, addr)

/-- The scan follows the route that leads among those so far. -/
structure Scan.Follows (s : Scan) (dst : UInt32) (routes : List Route) : Prop where
  noMatch : s.addr = none → s.max = 0 ∧ ∀ r ∈ routes, ¬ r.Matches dst
  leads : ∀ addr, s.addr = some addr →
    ∃ r : Route, r.Leads routes dst ∧ r.prefixLength = s.max ∧
      r.target dst = (s.interfaceNum, addr)

theorem Scan.Follows.knows (h : s.Follows dst routes) : s.Knows dst routes where
  noMatch := h.noMatch
  longest addr haddr := by
    obtain ⟨r, hleads, hr⟩ := h.leads addr haddr
    exact ⟨r, hleads.longest, hr⟩

theorem highBits_eq_iff (hpos : 1 ≤ r.prefixLength) (hlen : r.prefixLength ≤ 32) :
    highBits beyond dst r.prefixLength = highBits beyond r.routePrefix r.prefixLength ↔
      r.Matches dst := by
  have hpos' : 1 ≤ r.prefixLength.toNat := UInt8.le_iff_toNat_le.mp hpos
  have hlen' : r.prefixLength.toNat ≤ 32 := UInt8.le_iff_toNat_le.mp hlen
  have hshift : (32 - r.prefixLength).toUInt32.toNat = 32 - r.prefixLength.toNat := by
    rw [UInt8.toNat_toUInt32, UInt8.toNat_sub_of_le _ _ hlen]
    rfl
  unfold highBits Route.Matches
  rw [if_pos ⟨hpos, hlen⟩, if_pos ⟨hpos, hlen⟩, ← UInt32.toNat_inj, UInt32.toNat_shiftRight,
    UInt32.toNat_shiftRight, hshift, Nat.mod_eq_of_lt (by omega), Nat.shiftRight_eq_div_pow,
    Nat.shiftRight_eq_div_pow]

theorem Route.matches_of_zero (h : r.prefixLength = 0) : r.Matches dst := by
  unfold Matches
  rw [h, show 32 - (0 : UInt8).toNat = 32 from rfl, Nat.div_eq_of_lt dst.toNat_lt,
    Nat.div_eq_of_lt r.routePrefix.toNat_lt]

/-- The value of an overlong shift does not matter. -/
theorem Route.isSelected_iff (hlen : r.prefixLength ≤ 32) :
    r.isSelected beyond dst s = true ↔ r.Matches dst ∧ s.max ≤ r.prefixLength := by
  unfold isSelected
  by_cases hzero : r.prefixLength = 0
  · have hmatch : r.Matches dst := matches_of_zero hzero
    simp only [hzero, Bool.or_eq_true, Bool.and_eq_true, beq_iff_eq, decide_eq_true_eq]
    grind
  · have hpos : 1 ≤ r.prefixLength := by
      rw [UInt8.le_iff_toNat_le]
      have : r.prefixLength.toNat ≠ 0 := fun h => hzero (UInt8.toNat_inj.mp h)
      exact Nat.one_le_iff_ne_zero.mpr this
    simp only [Bool.or_eq_true, Bool.and_eq_true, beq_iff_eq, decide_eq_true_eq, hzero, and_false,
      false_or, highBits_eq_iff hpos hlen]

theorem Scan.Knows.max_le_iff (h : s.Knows dst before) {n : UInt8} :
    s.max ≤ n ↔ ∀ r ∈ before, r.Matches dst → r.prefixLength ≤ n := by
  cases haddr : s.addr with
  | none =>
    obtain ⟨hmax, hno⟩ := h.noMatch haddr
    rw [hmax]
    exact ⟨fun _ r hr hm => absurd hm (hno r hr), fun _ => UInt8.zero_le⟩
  | some addr =>
    obtain ⟨r, hr, hmax, -⟩ := h.longest addr haddr
    rw [← hmax]
    exact ⟨fun hn r' hr' hm => UInt8.le_trans (hr.le r' hr' hm) hn,
      fun hall => hall r hr.mem hr.isMatch⟩

namespace Scan.Follows

theorem new (dst : UInt32) : ({} : Scan).Follows dst [] :=
  ⟨fun _ => ⟨rfl, by simp⟩, by simp⟩

theorem take (h : s.Follows dst before) (hm : r.Matches dst) (hmax : s.max ≤ r.prefixLength)
    {addr : Address} (ha : r.nextHop.getD (.fromIpv4Numeric dst) = addr) :
    ({ max := r.prefixLength, addr := some addr, interfaceNum := r.interfaceNum } : Scan).Follows
      dst (before ++ [r]) := by
  refine ⟨by simp, fun addr' haddr' => ⟨r, ⟨hm, before, [], rfl, ?_, by simp⟩, rfl, ?_⟩⟩
  · exact h.knows.max_le_iff.mp hmax
  · cases haddr'
    rw [Route.target, ha]

theorem skip (h : s.Follows dst before) (hr : ¬ (r.Matches dst ∧ s.max ≤ r.prefixLength)) :
    s.Follows dst (before ++ [r]) := by
  constructor
  · intro haddr
    obtain ⟨hmax, hno⟩ := h.noMatch haddr
    refine ⟨hmax, fun r' hr' hm => ?_⟩
    rcases List.mem_append.mp hr' with hr' | hr'
    · exact hno r' hr' hm
    · rw [List.mem_singleton.mp hr'] at hm
      exact hr ⟨hm, by rw [hmax]; exact UInt8.zero_le⟩
  · intro addr haddr
    obtain ⟨l, hl, hmax, htarget⟩ := h.leads addr haddr
    obtain ⟨pre, after, rfl, hpre, hafter⟩ := hl.split
    refine ⟨l, ⟨hl.isMatch, pre, after ++ [r], by simp, hpre, fun r' hr' hm => ?_⟩, hmax, htarget⟩
    rcases List.mem_append.mp hr' with hr' | hr'
    · exact hafter r' hr' hm
    · rw [List.mem_singleton.mp hr'] at hm ⊢
      rw [hmax]
      exact UInt8.not_le.mp fun hle => hr ⟨hm, hle⟩

end Scan.Follows

/-- A scan goes on to the end with the route that leads, or ends at the first direct route that it
selects. -/
theorem scan_cases (beyond : UInt32 → UInt8 → UInt32)
    (hlen : ∀ r ∈ rest, r.prefixLength ≤ 32)
    (h : s.Follows dst before) (huncut : Uncut dst before) :
    (∃ pre d after, before ++ rest = pre ++ d :: after ∧ Uncut dst pre ∧ d.Stops dst pre ∧
      (scan beyond dst rest s).selected = some (d.target dst)) ∨
    (Uncut dst (before ++ rest) ∧ (scan beyond dst rest s).Follows dst (before ++ rest)) := by
  induction rest generalizing before s with
  | nil => exact Or.inr (by simpa [scan] using ⟨huncut, h⟩)
  | cons r rest ih =>
    have hrest := fun r' hr' => hlen r' (List.mem_cons_of_mem r hr')
    have hiff : r.isSelected beyond dst s = true ↔ r.Matches dst ∧ s.max ≤ r.prefixLength :=
      Route.isSelected_iff (hlen r (by simp))
    rw [List.append_cons before r rest]
    by_cases hsel : r.isSelected beyond dst s = true
    · obtain ⟨hm, hmax⟩ := hiff.mp hsel
      cases hhop : r.nextHop with
      | none =>
        refine Or.inl ⟨before, r, rest, by simp, huncut, ⟨hhop, hm, h.knows.max_le_iff.mp hmax⟩, ?_⟩
        simp [scan, hsel, hhop, Scan.selected, Route.target]
      | some addr =>
        have hnext : r.nextHop.getD (.fromIpv4Numeric dst) = addr := by rw [hhop]; rfl
        have hstep := ih hrest (h.take hm hmax hnext)
          (huncut.concat fun hstop => by simp [hstop.direct] at hhop)
        simpa only [scan, hsel, hhop, if_true] using hstep
    · have hskip := fun hboth => hsel (hiff.mpr hboth)
      have hstep := ih hrest (h.skip hskip)
        (huncut.concat fun hstop => hskip ⟨hstop.isMatch, h.knows.max_le_iff.mpr hstop.le⟩)
      simpa only [scan, hsel, Bool.false_eq_true, if_false] using hstep

/-- The route that decides gives what the scan selects; without a match nothing is selected. -/
theorem selected_scan (beyond : UInt32 → UInt8 → UInt32) (hlen : ∀ r ∈ routes, r.prefixLength ≤ 32)
    (dst : UInt32) :
    (∃ r : Route, r.Decides routes dst ∧
      (scan beyond dst routes {}).selected = some (r.target dst)) ∨
    ((∀ r ∈ routes, ¬ r.Matches dst) ∧ (scan beyond dst routes {}).selected = none) := by
  have hcases := scan_cases beyond hlen (Scan.Follows.new dst) uncut_nil
  rw [List.nil_append] at hcases
  rcases hcases with ⟨before, d, after, heq, huncut, hstop, hsel⟩ | ⟨huncut, hfollows⟩
  · exact Or.inl ⟨d, Or.inl ⟨before, after, heq, huncut, hstop⟩, hsel⟩
  · cases haddr : (scan beyond dst routes {}).addr with
    | none =>
      refine Or.inr ⟨(hfollows.noMatch haddr).2, ?_⟩
      rw [Scan.selected, haddr]
      rfl
    | some addr =>
      obtain ⟨r, hleads, -, htarget⟩ := hfollows.leads addr haddr
      refine Or.inl ⟨r, Or.inr ⟨huncut, hleads⟩, ?_⟩
      rw [Scan.selected, haddr, htarget]
      rfl

theorem Route.Longest.unique (hdistinct : routes.Pairwise fun r r' => ¬ r.SamePrefix r')
    (h : r.Longest routes dst) (hd : d.Longest routes dst) : r = d := by
  by_contra hne
  have hlen : r.prefixLength = d.prefixLength :=
    UInt8.le_antisymm (hd.le r h.mem h.isMatch) (h.le d hd.mem hd.isMatch)
  have : Std.Symm fun r r' : Route => ¬ r.SamePrefix r' := ⟨fun _ _ h h' => h h'.symm⟩
  exact hdistinct.forall h.mem hd.mem hne (h.isMatch.samePrefix hd.isMatch hlen)

/-- The prefix and its length, by which a route is known in the table. -/
def Route.pair (r : Route) : UInt32 × UInt8 := (r.routePrefix, r.prefixLength)

/-- The route after another call with its prefix and length. -/
def Route.updatedBy (r call : Route) : Route := { r with nextHop := call.nextHop }

theorem addRouteTo_eq_upsert (table : List Route) (r : Route) :
    addRouteTo table r = KeyedList.upsert Route.pair Route.updatedBy table r := by
  induction table with
  | nil => rfl
  | cons c table ih =>
    simp only [addRouteTo, KeyedList.upsert, Route.pair, Prod.mk.injEq, ih]
    rfl

theorem foldl_addRouteTo_eq_upsert (table calls : List Route) :
    calls.foldl addRouteTo table =
      calls.foldl (KeyedList.upsert Route.pair Route.updatedBy) table := by
  have hfun : addRouteTo = KeyedList.upsert Route.pair Route.updatedBy := by
    funext table r
    exact addRouteTo_eq_upsert table r
  rw [hfun]

theorem foldl_addRouteTo (before : List Route)
    (h : (before ++ routes).Pairwise fun r r' => ¬ r.SamePrefix r') :
    routes.foldl addRouteTo before = before ++ routes := by
  rw [foldl_addRouteTo_eq_upsert]
  apply KeyedList.foldl_upsert_of_nodup
  apply List.pairwise_map.mpr
  refine h.imp fun {r r'} hne heq => hne ?_
  obtain ⟨hsame, hlen⟩ := Prod.mk.inj heq
  exact ⟨hlen, by rw [Route.Matches, hsame]⟩

namespace Router

variable {router : Router} {dgram : IPv4Datagram}

theorem handsTo_eq_selected (router : Router) (httl : ¬ dgram.header.ttl ≤ 1) :
    router.handsTo beyond dgram =
      (scan beyond dgram.header.dst router.routingTable {}).selected := if_neg httl

/-- The longest match decides if and only if no direct route hides another one. -/
theorem handsTo_longest_iff (htable : router.routingTable = routes.foldl addRouteTo [])
    (hlen : ∀ r ∈ routes, r.prefixLength ≤ 32)
    (hdistinct : routes.Pairwise fun r r' => ¬ r.SamePrefix r') (httl : 2 ≤ dgram.header.ttl) :
    LongestMatch routes dgram.header.dst (router.handsTo beyond dgram) ↔
      CutHarmless routes dgram.header.dst := by
  have hhands : router.handsTo beyond dgram =
      (scan beyond dgram.header.dst routes {}).selected := by
    have hlive : ¬ dgram.header.ttl ≤ 1 := UInt8.not_le.mpr (UInt8.lt_of_lt_of_le (by decide) httl)
    rw [handsTo_eq_selected router hlive, htable, foldl_addRouteTo [] hdistinct, List.nil_append]
  rw [hhands]
  have hcases := scan_cases beyond hlen (Scan.Follows.new dgram.header.dst) uncut_nil
  rw [List.nil_append] at hcases
  rcases hcases with ⟨before, d, after, htab, huncut, hstop, hsel⟩ | ⟨huncut, hfollows⟩
  · rw [hsel]
    constructor
    · intro hprop before' d' after' htab' huncut' hstop' r hr
      rw [Uncut.unique (htab'.symm.trans htab) huncut' huncut hstop' hstop]
      exact (Option.some.inj (hprop.longest r hr)).symm
    · intro hcond
      refine ⟨fun r hr => by rw [hcond before d after htab huncut hstop r hr], fun hno => ?_⟩
      exact absurd hstop.isMatch (hno d (by simp [htab]))
  · constructor
    · intro _ before d after htab _ hstop
      exact absurd hstop (huncut _ _ _ htab)
    · intro _
      have hknows := hfollows.knows
      cases haddr : (scan beyond dgram.header.dst routes {}).addr with
      | none =>
        refine ⟨fun r hr => absurd hr.isMatch ((hknows.noMatch haddr).2 r hr.mem), fun _ => ?_⟩
        rw [Scan.selected, haddr]
        rfl
      | some addr =>
        obtain ⟨l, hl, -, htarget⟩ := hknows.longest addr haddr
        refine ⟨fun r hr => ?_, fun hno => absurd hl.isMatch (hno l hl.mem)⟩
        rw [Scan.selected, haddr, Option.map_some, hr.unique hdistinct hl, htarget]

/-- The longer route stands in front of the shorter ones. -/
theorem handsTo_longest_default_last :
    let routes : List Route := [⟨0x0A010000, 16, some ⟨0x0A000002, 0⟩, 1⟩,
      ⟨0x0A000000, 8, none, 0⟩, ⟨0, 0, some ⟨0x0A000001, 0⟩, 2⟩]
    let dgram : IPv4Datagram := { header := { ttl := 64, dst := 0x0A010203 } }
    LongestMatch routes dgram.header.dst
      (handsTo (fun _ _ => 0) { routingTable := routes.foldl addRouteTo [] } dgram) := by
  intro routes dgram
  apply (handsTo_longest_iff rfl (by decide) (by decide) (by decide)).mpr
  rintro before d after htab - hstop
  have hdirect : d = ⟨0x0A000000, 8, none, 0⟩ := by
    have hmem : d ∈ routes := by simp [htab]
    have hnone := hstop.direct
    simp only [routes, List.mem_cons, List.not_mem_nil, or_false] at hmem
    rcases hmem with rfl | rfl | rfl
    · simp at hnone
    · rfl
    · simp at hnone
  subst hdirect
  have hfirst : ⟨0x0A010000, 16, some ⟨0x0A000002, 0⟩, 1⟩ ∈ before := by
    cases before with
    | nil => simp [routes] at htab
    | cons c before => simp [(List.cons.inj htab).1]
  exact absurd (hstop.le _ hfirst (by decide)) (by decide)

/-- A direct route ends the scan in front of a longer match. -/
theorem handsTo_direct_hides_longer :
    let routes : List Route := [⟨0x0A000000, 8, none, 0⟩,
      ⟨0x0A010000, 16, some ⟨0x0A000002, 0⟩, 1⟩]
    let dgram : IPv4Datagram := { header := { ttl := 64, dst := 0x0A010203 } }
    (∀ r ∈ routes, r.prefixLength ≤ 32) ∧ routes.Pairwise (fun r r' => ¬ r.SamePrefix r') ∧
      2 ≤ dgram.header.ttl ∧
      ∀ beyond, ¬ LongestMatch routes dgram.header.dst
        (handsTo beyond { routingTable := routes.foldl addRouteTo [] } dgram) := by
  intro routes dgram
  refine ⟨by decide, by decide, by decide, fun beyond h => ?_⟩
  have hlongest : Route.Longest ⟨0x0A010000, 16, some ⟨0x0A000002, 0⟩, 1⟩ routes 0x0A010203 :=
    ⟨by decide, by decide, by decide⟩
  have hsel := h.longest _ hlongest
  have hdirect : handsTo beyond { routingTable := routes.foldl addRouteTo [] } dgram =
      some (0, ⟨0x0A010203, 0⟩) := by
    have htaken : Route.isSelected beyond ⟨0x0A000000, 8, none, 0⟩ 0x0A010203 {} = true :=
      (Route.isSelected_iff (by decide)).mpr (by decide)
    rw [handsTo, if_neg (by decide), foldl_addRouteTo [] (by decide)]
    simp only [List.nil_append, routes, dgram, scan, htaken, if_true]
    rfl
  rw [hdirect] at hsel
  exact absurd hsel (by decide)

end Router

end Sponge
