import Sponge.Descriptor.EventLoop
import Sponge.Stream.ByteStream

/-! # Copying streams in both directions

Bytes go from the standard input to a socket, and from the socket to the standard output, each way
through a byte stream. They arrive in order, and the end of a direction is passed on only after all
of them.
-/

namespace Sponge

open EventLoop Runs

/-- One direction: the stream, whether its end was passed on, and the bytes that went in and out. -/
structure Half where
  stream : ByteStream
  shutdown : Bool := false
  came : Buffer := []
  went : Buffer := []
  deriving DecidableEq, Repr

namespace Half

def maxCopyLength : ℕ := 65536

def bufferSize : ℕ := 1048576

def new : Half := { stream := .new bufferSize }

/-- Rules 1 and 3: read from a descriptor into the stream. -/
def fill (c : Half) (fd : FileDescriptor) (answer : ℕ → ReadAnswer) :
    Except Exception (FileDescriptor × Half) := do
  let (fd, data) ← fd.read (answer (FileDescriptor.sizeToRead c.stream.remainingCapacity))
    c.stream.remainingCapacity
  let stream := (c.stream.write data).1
  return (fd, {
    c with
    stream := if fd.eof then stream.endInput else stream
    came := c.came ++ data })

/-- What is to be written next. -/
def next (c : Half) : Buffer := c.stream.peekOutput (min maxCopyLength c.stream.bufferSize)

/-- Rules 2 and 4: write from the stream to a descriptor, and stop it at the end. -/
def drain (c : Half) (fd : FileDescriptor) (stop : FileDescriptor → Except Exception FileDescriptor)
    (answer : Buffer → Answer) : Except Exception (FileDescriptor × Half) := do
  let (fd, bytesWritten, went) ← fd.write (answer c.next) [c.next]
  let stream := c.stream.popOutput bytesWritten
  let c := { c with stream := stream, went := c.went ++ went }
  if stream.eof then do
    let fd ← stop fd
    return (fd, { c with shutdown := true })
  else return (fd, c)

def endInput (c : Half) : Half := { c with stream := c.stream.endInput }

def canFill (c other : Half) : Bool :=
  !c.stream.error && decide (0 < c.stream.remainingCapacity) && !other.stream.error

def canDrain (c : Half) : Bool := !c.stream.bufferEmpty || (c.stream.eof && !c.shutdown)

/-- What came in went out or is stored. `dry` says that nothing more comes in, `lost` that nothing
more goes out. -/
structure Copies (c : Half) (dry lost : Prop) : Prop where
  consistent : c.stream.Consistent
  cap : c.stream.cap = bufferSize
  errorless : c.stream.error = false
  balanced : c.came = c.went ++ c.stream.buf
  ends : dry → c.stream.eof2 = true
  ended : c.stream.eof2 = true → dry ∨ lost
  shut : c.shutdown = true → dry ∧ c.stream.buf = []

variable {c c' : Half} {fd fd' : FileDescriptor} {dry lost : Prop}

theorem Copies.new (lost : Prop) : new.Copies False lost where
  consistent := .new (by norm_num [bufferSize])
  cap := rfl
  errorless := rfl
  balanced := rfl
  ends := False.elim
  ended h := absurd h Bool.false_ne_true
  shut h := absurd h Bool.false_ne_true

theorem Copies.congr {dry' lost' : Prop} (h : c.Copies dry lost) (hdry : dry ↔ dry')
    (hlost : lost ↔ lost') : c.Copies dry' lost' := by
  rwa [← propext hdry, ← propext hlost]

theorem Copies.endInput {dry' lost' : Prop} (h : c.Copies dry lost) (hdry : dry → dry')
    (hends : dry' ∨ lost') : c.endInput.Copies dry' lost' where
  consistent := h.consistent.endInput
  cap := h.cap
  errorless := h.errorless
  balanced := h.balanced
  ends _ := rfl
  ended _ := hends
  shut hshut := (h.shut hshut).imp_left hdry

theorem endInput_ite (s : ByteStream) (e : Bool) :
    (if e = true then s.endInput else s) = { s with eof2 := s.eof2 || e } := by
  cases e <;> simp [ByteStream.endInput]

theorem Copies.fill {answer : ℕ → ReadAnswer} (h : c.Copies dry lost) (hdry : ¬ dry)
    (hgood : ∀ size, (answer size).Honest size) (hs : c.fill fd answer = .ok (fd', c')) :
    c'.Copies (fd'.eof = true) lost ∧ c'.shutdown = c.shutdown ∧ fd'.closed = fd.closed := by
  have hhonest := hgood (FileDescriptor.sizeToRead c.stream.remainingCapacity)
  unfold Half.fill at hs
  by_cases hret : 0 ≤ (answer (FileDescriptor.sizeToRead c.stream.remainingCapacity)).ret.toInt
  · rw [FileDescriptor.read_ok hhonest hret] at hs
    have hstored := hhonest.stored hret
    have hle := hhonest.le
    generalize answer (FileDescriptor.sizeToRead c.stream.remainingCapacity) = got at *
    have hfits : got.stored.length ≤ c.stream.rem := by
      have hsize : FileDescriptor.sizeToRead c.stream.remainingCapacity ≤ c.stream.rem :=
        min_le_right _ _
      omega
    simp only [bind, Except.bind, endInput_ite] at hs
    obtain ⟨rfl, rfl⟩ := Prod.mk.injEq _ _ _ _ ▸ Except.ok.inj hs
    refine ⟨⟨?_, h.cap, h.errorless, ?_, ?_, ?_, fun hshut => absurd (h.shut hshut).1 hdry⟩,
      rfl, rfl⟩
    · exact ⟨h.consistent.write.room, h.consistent.cap_lt⟩
    · rw [ByteStream.write_buf_of_fits hfits, h.balanced, List.append_assoc]
    · intro heof
      rw [heof, Bool.or_true]
    · intro hended
      rcases Bool.or_eq_true_iff.mp hended with hended | heof
      · exact Or.inr ((h.ended hended).resolve_left hdry)
      · exact Or.inl heof
  · rw [FileDescriptor.read_error hhonest (by omega)] at hs
    cases hs

theorem Copies.drain {answer : Buffer → Answer}
    {stop : FileDescriptor → Except Exception FileDescriptor}
    (h : c.Copies dry lost) (hlost : ¬ lost) (hgood : ∀ buffer, (answer buffer).Honest buffer)
    (hs : c.drain fd stop answer = .ok (fd', c')) :
    c'.Copies dry lost ∧ (c'.shutdown = (c.shutdown || c'.stream.eof)) ∧
      ((c'.stream.eof = true ∧ stop fd.registerWrite = .ok fd') ∨
        (c'.stream.eof = false ∧ fd' = fd.registerWrite)) := by
  have hhonest := hgood c.next
  have hle := hhonest.le
  have hnext : c.next.length ≤ maxCopyLength ∧ c.next.length ≤ c.stream.buf.length := by
    have hsize := h.consistent.bufferSize_eq
    rw [next, ByteStream.peekOutput, List.length_take]
    omega
  unfold Half.drain at hs
  by_cases hret : 0 ≤ (answer c.next).ret.toInt
  · rw [FileDescriptor.write_ok hhonest hret (by unfold maxCopyLength at hnext; omega)] at hs
    generalize hn : (answer c.next).ret.toInt.toNat = n at hs
    have hn : n ≤ c.next.length := by omega
    have htake : c.next.take n = c.stream.buf.take n := by
      have hlen : n ≤ min maxCopyLength c.stream.bufferSize :=
        hn.trans (List.length_take_le _ _)
      rw [next, ByteStream.peekOutput, List.take_take, Nat.min_eq_left hlen]
    have hbalanced : c.came = (c.went ++ c.next.take n) ++ c.stream.buf.drop n := by
      rw [htake, List.append_assoc, List.take_append_drop, h.balanced]
    have hconsistent := h.consistent.popOutput (hn.trans hnext.2)
    simp only [bind, Except.bind] at hs
    split_ifs at hs with heof
    · obtain ⟨fd₁, hstop, hs⟩ := bind_ok_iff.mp hs
      obtain ⟨rfl, rfl⟩ := Prod.mk.injEq _ _ _ _ ▸ Except.ok.inj hs
      obtain ⟨hempty, hended⟩ := hconsistent.eof_iff.mp heof
      have hdry : dry := (h.ended hended).resolve_right hlost
      refine ⟨⟨hconsistent, h.cap, h.errorless, hbalanced, h.ends, h.ended, fun _ => ?_⟩, ?_,
        Or.inl ⟨heof, hstop⟩⟩
      · exact ⟨hdry, hempty⟩
      · rw [heof, Bool.or_true]
    · obtain ⟨rfl, rfl⟩ := Prod.mk.injEq _ _ _ _ ▸ Except.ok.inj hs
      rw [Bool.not_eq_true] at heof
      refine ⟨⟨hconsistent, h.cap, h.errorless, hbalanced, h.ends, h.ended, fun hshut => ?_⟩, ?_,
        Or.inr ⟨heof, rfl⟩⟩
      · obtain ⟨hdry, hempty⟩ := h.shut hshut
        exact ⟨hdry, by rw [ByteStream.popOutput, hempty, List.drop_nil]⟩
      · rw [heof, Bool.or_false]
  · rw [FileDescriptor.write_error hhonest (by omega)] at hs
    cases hs

theorem fill_error {answer : ℕ → ReadAnswer} {e : Exception}
    (hgood : ∀ size, (answer size).Honest size) (hs : c.fill fd answer = .error e) :
    ∃ size, (answer size).ret.toInt < 0 ∧ e = .unixError "read" (answer size).errno := by
  have hhonest := hgood (FileDescriptor.sizeToRead c.stream.remainingCapacity)
  unfold Half.fill at hs
  by_cases hret : 0 ≤ (answer (FileDescriptor.sizeToRead c.stream.remainingCapacity)).ret.toInt
  · rw [FileDescriptor.read_ok hhonest hret] at hs
    cases hs
  · rw [FileDescriptor.read_error hhonest (by omega)] at hs
    exact ⟨_, by omega, (Except.error.inj hs).symm⟩

theorem drain_error {answer : Buffer → Answer}
    {stop : FileDescriptor → Except Exception FileDescriptor}
    {e : Exception} (hgood : ∀ buffer, (answer buffer).Honest buffer)
    (hs : c.drain fd stop answer = .error e) :
    (∃ buffer, (answer buffer).ret.toInt < 0 ∧ e = .unixError "writev" (answer buffer).errno) ∨
      stop fd.registerWrite = .error e := by
  have hlen : c.next.length ≤ maxCopyLength :=
    (List.length_take_le _ _).trans (min_le_left _ _)
  unfold Half.drain at hs
  by_cases hret : 0 ≤ (answer c.next).ret.toInt
  · rw [FileDescriptor.write_ok (hgood _) hret (by unfold maxCopyLength at hlen; omega)] at hs
    simp only [bind, Except.bind] at hs
    split_ifs at hs
    · rcases bind_error_iff.mp hs with hstop | ⟨_, -, hs⟩
      · exact Or.inr hstop
      · cases hs
    · cases hs
  · rw [FileDescriptor.write_error (hgood _) (by omega)] at hs
    exact Or.inl ⟨_, by omega, (Except.error.inj hs).symm⟩

theorem fill_counts {answer : ℕ → ReadAnswer} (hs : c.fill fd answer = .ok (fd', c')) :
    fd'.readCount = fd.readCount + 1 := by
  obtain ⟨⟨fd₁, data⟩, hread, hs⟩ := bind_ok_iff.mp hs
  obtain ⟨rfl, -⟩ := Prod.mk.injEq _ _ _ _ ▸ Except.ok.inj hs
  exact FileDescriptor.read_counts hread

theorem drain_counts {answer : Buffer → Answer}
    {stop : FileDescriptor → Except Exception FileDescriptor}
    (hs : c.drain fd stop answer = .ok (fd', c')) :
    fd' = fd.registerWrite ∨ stop fd.registerWrite = .ok fd' := by
  obtain ⟨⟨fd₁, bytesWritten, went⟩, hwrite, hs⟩ := bind_ok_iff.mp hs
  obtain rfl := FileDescriptor.write_counts hwrite
  simp only at hs
  split_ifs at hs
  · obtain ⟨fd₂, hstop, hs⟩ := bind_ok_iff.mp hs
    obtain ⟨rfl, -⟩ := Prod.mk.injEq _ _ _ _ ▸ Except.ok.inj hs
    exact Or.inr hstop
  · obtain ⟨rfl, -⟩ := Prod.mk.injEq _ _ _ _ ▸ Except.ok.inj hs
    exact Or.inl rfl

/-- If there is nothing to be done for one direction, its end was passed on, or bytes can still come
in but not go out. -/
theorem Copies.complete {other : Half} (h : c.Copies dry lost) (hother : other.stream.error = false)
    (hfill : ¬ dry → c.canFill other = false) (hdrain : c.canDrain = false) :
    c.shutdown = true := by
  simp only [canDrain, Bool.or_eq_false_iff, Bool.not_eq_false', Bool.and_eq_false_iff] at hdrain
  obtain ⟨hempty, hpassed⟩ := hdrain
  have hbuf := h.consistent.bufferEmpty_iff.mp hempty
  have hroom := h.consistent.room
  have hdry : dry := by
    by_contra hdry
    have hfill := hfill hdry
    have hfull : ¬ 0 < c.stream.remainingCapacity := by
      simpa [canFill, h.errorless, hother] using hfill
    unfold ByteStream.remainingCapacity at hfull
    rw [hbuf, List.length_nil, h.cap, bufferSize] at hroom
    omega
  have heof : c.stream.eof = true := h.consistent.eof_iff.mpr ⟨hbuf, h.ends hdry⟩
  rcases hpassed with hpassed | hpassed
  · rw [heof] at hpassed
    cases hpassed
  · exact hpassed

end Half

/-- The rules, in the order in which they are added. -/
inductive CopyRule
  | readInput | writeSocket | readSocket | writeOutput
  deriving DecidableEq, Repr

namespace CopyRule

/-- The rule `j` is added before `k`. -/
def before (j k : CopyRule) : Prop := j.ctorIdx < k.ctorIdx

instance (j k : CopyRule) : Decidable (before j k) := inferInstanceAs (Decidable (_ < _))

def all : List CopyRule := [readInput, writeSocket, readSocket, writeOutput]

/-- How the kernel answers a read, or a write and the call that passes the end on. -/
abbrev Input : CopyRule → Type
  | readInput | readSocket => ℕ → ReadAnswer
  | writeSocket | writeOutput => (Buffer → Answer) × Option Errno

/-- The kernel answers as it should. -/
def Good : ∀ k, Input k → Prop
  | readInput, answer | readSocket, answer => ∀ size, (answer size).Honest size
  | writeSocket, (answer, _) | writeOutput, (answer, _) => ∀ buffer, (answer buffer).Honest buffer

/-- The kernel refuses a read, a write or the call that passes the end on, with the error `e`. -/
def Refuses (e : Exception) : ∀ k, Input k → Prop
  | readInput, answer | readSocket, answer =>
    ∃ size, (answer size).ret.toInt < 0 ∧ e = .unixError "read" (answer size).errno
  | writeSocket, (answer, refusal) =>
    (∃ buffer, (answer buffer).ret.toInt < 0 ∧ e = .unixError "writev" (answer buffer).errno) ∨
      ∃ errno ∈ refusal, e = .unixError "shutdown" errno
  | writeOutput, (answer, refusal) =>
    (∃ buffer, (answer buffer).ret.toInt < 0 ∧ e = .unixError "writev" (answer buffer).errno) ∨
      ∃ errno ∈ refusal, e = .unixError "close" errno

end CopyRule

/-- The descriptors, and both directions of the copy. -/
structure StreamCopy where
  input : FileDescriptor := { fdNum := 0 }
  output : FileDescriptor := { fdNum := 1 }
  socket : FileDescriptor
  outbound : Half := .new
  inbound : Half := .new
  deriving DecidableEq, Repr

namespace StreamCopy

/-- The rules of `bidirectional_stream_copy`. -/
def rules : ∀ k, Rule StreamCopy (CopyRule.Input k)
  | .readInput =>
    { fd := fun s => s.input
      direction := .In
      callback := fun s answer => do
        let (input, outbound) ← s.outbound.fill s.input answer
        return { s with input := input, outbound := outbound }
      interest := fun s => s.outbound.canFill s.inbound
      cancel := fun s => { s with outbound := s.outbound.endInput } }
  | .writeSocket =>
    { fd := fun s => s.socket
      direction := .Out
      callback := fun s (answer, refusal) => do
        let (socket, outbound) ← s.outbound.drain s.socket (·.shutdownWrite refusal) answer
        return { s with socket := socket, outbound := outbound }
      interest := fun s => s.outbound.canDrain
      cancel := fun s => { s with outbound := s.outbound.endInput } }
  | .readSocket =>
    { fd := fun s => s.socket
      direction := .In
      callback := fun s answer => do
        let (socket, inbound) ← s.inbound.fill s.socket answer
        return { s with socket := socket, inbound := inbound }
      interest := fun s => s.inbound.canFill s.outbound
      cancel := fun s => { s with inbound := s.inbound.endInput } }
  | .writeOutput =>
    { fd := fun s => s.output
      direction := .Out
      callback := fun s (answer, refusal) => do
        let (output, inbound) ← s.inbound.drain s.output (·.close refusal) answer
        return { s with output := output, inbound := inbound }
      interest := fun s => s.inbound.canDrain
      cancel := fun s => { s with inbound := s.inbound.endInput } }

/-- The loop of `bidirectional_stream_copy`, with what its polls report, and whether it has
returned. -/
def loop : List (PollAnswer CopyRule CopyRule.Input) →
    List CopyRule × StreamCopy → Except Exception (Bool × List CopyRule × StreamCopy)
  | [], l => .ok (false, l)
  | poll :: polls, (rules, s) => do
    let (ret, rules, s) ← waitNextEvent StreamCopy.rules rules s poll
    if ret = .exit then return (true, rules, s)
    else loop polls (rules, s)

/-- How the kernel answers when the flags of a descriptor are asked for and set. -/
structure FlagsAnswer where
  getfl : Option Errno := none
  setfl : Option Errno := none
  deriving DecidableEq, Repr

/-- What the copy meets. -/
structure Answers where
  socketFlags : FlagsAnswer := {}
  inputFlags : FlagsAnswer := {}
  outputFlags : FlagsAnswer := {}
  polls : List (PollAnswer CopyRule CopyRule.Input)

/-- `bidirectional_stream_copy`. The descriptors are not to block. -/
def bidirectionalStreamCopy (socket : FileDescriptor) (answers : Answers) :
    Except Exception (Bool × List CopyRule × StreamCopy) := do
  let s : StreamCopy := { socket := socket }
  let socket ← s.socket.setBlocking answers.socketFlags.getfl answers.socketFlags.setfl
  let input ← s.input.setBlocking answers.inputFlags.getfl answers.inputFlags.setfl
  let output ← s.output.setBlocking answers.outputFlags.getfl answers.outputFlags.setfl
  loop answers.polls (CopyRule.all, { s with socket := socket, input := input, output := output })

/-- Both directions copy. A rule is cancelled only if its descriptor comes to an end, or if it is in
`hung`. -/
structure Copying (hung S : Set CopyRule) (s : StreamCopy) : Prop where
  outbound : s.outbound.Copies (.readInput ∈ S → s.input.eof = true) (.writeSocket ∉ S)
  inbound : s.inbound.Copies (.readSocket ∈ S → s.socket.eof = true) (.writeOutput ∉ S)
  input : s.input.closed = false
  socket : s.socket.closed = false
  output : s.output.closed = s.inbound.shutdown
  socketHung : .writeSocket ∉ S → .writeSocket ∈ hung
  outputHung : .writeOutput ∉ S → .writeOutput ∈ hung ∨ s.inbound.shutdown = true

/-- A rule that reads has not come to the end. -/
def Guard (s : StreamCopy) : CopyRule → Prop
  | .readInput => s.input.eof = false
  | .readSocket => s.socket.eof = false
  | .writeSocket | .writeOutput => True

variable {s s' : StreamCopy} {hung S : Set CopyRule} {k : CopyRule}

theorem rules_served {input : CopyRule.Input k} (h : (rules k).callback s input = .ok s') :
    (rules k).serviceCount s ≠ (rules k).serviceCount s' := by
  intro hcount
  cases k with
  | readInput | readSocket =>
    obtain ⟨⟨fd, c⟩, hs, h⟩ := bind_ok_iff.mp h
    obtain rfl := Except.ok.inj h
    have hcounts := Half.fill_counts hs
    exact (FileDescriptor.count_ne _).1 (hcounts.symm.trans hcount.symm)
  | writeSocket =>
    obtain ⟨⟨fd, c⟩, hs, h⟩ := bind_ok_iff.mp h
    obtain rfl := Except.ok.inj h
    rcases Half.drain_counts hs with rfl | hstop
    · exact (FileDescriptor.count_ne _).1 hcount.symm
    · obtain rfl := FileDescriptor.shutdownWrite_ok hstop
      exact (FileDescriptor.count_ne _).2 hcount.symm
  | writeOutput =>
    obtain ⟨⟨fd, c⟩, hs, h⟩ := bind_ok_iff.mp h
    obtain rfl := Except.ok.inj h
    rcases Half.drain_counts hs with rfl | hstop
    · exact (FileDescriptor.count_ne _).1 hcount.symm
    · obtain rfl := FileDescriptor.close_ok hstop
      exact (FileDescriptor.count_ne _).1 hcount.symm

theorem rules_error {input : CopyRule.Input k} {e : Exception} (hgood : CopyRule.Good k input)
    (h : (rules k).callback s input = .error e) : CopyRule.Refuses e k input := by
  cases k with
  | readInput | readSocket =>
    rcases bind_error_iff.mp h with hs | ⟨_, -, h⟩
    · exact Half.fill_error hgood hs
    · cases h
  | writeSocket =>
    rcases bind_error_iff.mp h with hs | ⟨_, -, h⟩
    · exact (Half.drain_error hgood hs).imp_right FileDescriptor.shutdownWrite_error_iff.mp
    · cases h
  | writeOutput =>
    rcases bind_error_iff.mp h with hs | ⟨_, -, h⟩
    · exact (Half.drain_error hgood hs).imp_right FileDescriptor.close_error_iff.mp
    · cases h

theorem Copying.cancel {j : CopyRule} (hi : Copying hung (insert j S) s) (hj : j ∉ S)
    (hcause : (rules j).isDefunct s = true ∨ j ∈ hung) :
    Copying hung S ((rules j).cancel s) := by
  cases j with
  | readInput =>
    exact {
      hi with
      outbound := hi.outbound.endInput (fun _ hk => absurd hk hj) (Or.inl fun hk => absurd hk hj)
      inbound := by simpa [rules] using hi.inbound
      socketHung := by simpa [rules] using hi.socketHung
      outputHung := by simpa [rules, Half.endInput] using hi.outputHung }
  | writeSocket =>
    have hopen : (rules .writeSocket).isDefunct s ≠ true := by
      simp [Rule.isDefunct, rules, hi.socket]
    exact {
      hi with
      outbound := hi.outbound.endInput (fun hdry hk => hdry (Or.inr hk)) (Or.inr hj)
      inbound := by simpa [rules] using hi.inbound
      socketHung := fun _ => hcause.resolve_left hopen
      outputHung := by simpa [rules, Half.endInput] using hi.outputHung }
  | readSocket =>
    exact {
      hi with
      outbound := by simpa [rules] using hi.outbound
      inbound := hi.inbound.endInput (fun _ hk => absurd hk hj) (Or.inl fun hk => absurd hk hj)
      socketHung := by simpa [rules] using hi.socketHung
      outputHung := by simpa [rules, Half.endInput] using hi.outputHung }
  | writeOutput =>
    have hclosed : (rules .writeOutput).isDefunct s = s.inbound.shutdown := by
      simp [Rule.isDefunct, rules, hi.output]
    exact {
      hi with
      outbound := by simpa [rules] using hi.outbound
      inbound := hi.inbound.endInput (fun hdry hk => hdry (Or.inr hk)) (Or.inr hj)
      socketHung := by simpa [rules] using hi.socketHung
      outputHung := fun _ => hcause.symm.imp_right hclosed.symm.trans }

theorem Copying.callback {j : CopyRule} {input : CopyRule.Input j} (hi : Copying hung S s)
    (hj : j ∈ S) (hg : s.Guard j) (hgood : CopyRule.Good j input)
    (hs : (rules j).callback s input = .ok s') :
    Copying hung S s' ∧ ∀ k, CopyRule.before j k → s.Guard k → s'.Guard k := by
  cases j with
  | readInput =>
    obtain ⟨⟨fd, c⟩, hmoved, h⟩ := bind_ok_iff.mp hs
    obtain rfl := Except.ok.inj h
    have hcomes : ¬ (.readInput ∈ S → s.input.eof = true) := fun h =>
      Bool.false_ne_true (hg.symm.trans (h hj))
    obtain ⟨hcopies, -, hclosed⟩ := hi.outbound.fill hcomes hgood hmoved
    refine ⟨{
      hi with
      outbound := hcopies.congr ⟨fun h _ => h, fun h => h hj⟩ Iff.rfl
      input := hclosed.trans hi.input }, fun k hbefore hguard => ?_⟩
    cases k with
    | readInput => exact absurd hbefore (lt_irrefl _)
    | writeSocket | readSocket | writeOutput => exact hguard
  | writeSocket =>
    obtain ⟨⟨fd, c⟩, hmoved, h⟩ := bind_ok_iff.mp hs
    obtain rfl := Except.ok.inj h
    obtain ⟨hcopies, -, hfd⟩ := hi.outbound.drain (not_not.mpr hj) hgood hmoved
    have hsame : fd.eof = s.socket.eof ∧ fd.closed = s.socket.closed := by
      rcases hfd with ⟨-, hstop⟩ | ⟨-, rfl⟩
      · rw [FileDescriptor.shutdownWrite_ok hstop]
        exact ⟨rfl, rfl⟩
      · exact ⟨rfl, rfl⟩
    refine ⟨{
      hi with
      outbound := hcopies
      inbound := by rw [hsame.1]; exact hi.inbound
      socket := hsame.2.trans hi.socket }, fun k _ hguard => ?_⟩
    cases k with
    | readSocket => exact hsame.1.trans hguard
    | readInput | writeSocket | writeOutput => exact hguard
  | readSocket =>
    obtain ⟨⟨fd, c⟩, hmoved, h⟩ := bind_ok_iff.mp hs
    obtain rfl := Except.ok.inj h
    have hcomes : ¬ (.readSocket ∈ S → s.socket.eof = true) := fun h =>
      Bool.false_ne_true (hg.symm.trans (h hj))
    obtain ⟨hcopies, hshutdown, hclosed⟩ := hi.inbound.fill hcomes hgood hmoved
    refine ⟨{
      hi with
      inbound := hcopies.congr ⟨fun h _ => h, fun h => h hj⟩ Iff.rfl
      socket := hclosed.trans hi.socket
      output := hi.output.trans hshutdown.symm
      outputHung := fun hk => (hi.outputHung hk).imp_right hshutdown.trans },
      fun k hbefore hguard => ?_⟩
    cases k with
    | readSocket => exact absurd hbefore (lt_irrefl _)
    | readInput | writeSocket | writeOutput => exact hguard
  | writeOutput =>
    obtain ⟨⟨fd, c⟩, hmoved, h⟩ := bind_ok_iff.mp hs
    obtain rfl := Except.ok.inj h
    obtain ⟨hcopies, hshutdown, hfd⟩ := hi.inbound.drain (not_not.mpr hj) hgood hmoved
    have hclosed : fd.closed = c.shutdown := by
      rw [hshutdown]
      rcases hfd with ⟨heof, hstop⟩ | ⟨heof, rfl⟩
      · rw [FileDescriptor.close_ok hstop, heof, Bool.or_true]
      · rw [heof, Bool.or_false]
        exact hi.output
    refine ⟨{
      hi with
      inbound := hcopies
      output := hclosed
      outputHung := fun hk => absurd hj hk }, fun k _ hguard => ?_⟩
    cases k <;> exact hguard

theorem rules_sound (hung : Set CopyRule) :
    Sound rules CopyRule.before CopyRule.Good hung (Copying hung) (fun k s => s.Guard k) where
  guards S k s hi hk hdefunct _ := by
    have hends : (rules k).isDefunct s = false := hdefunct
    cases k with
    | readInput | readSocket =>
      simp only [Rule.isDefunct, rules, Bool.or_eq_false_iff] at hends
      exact hends.1
    | writeSocket | writeOutput => trivial
  cancel S j s hj hi hcause := by
    refine ⟨hi.cancel hj hcause, fun k _ hg => ?_⟩
    cases j <;> cases k <;> exact hg
  callback S j s input s' hj hi hg hgood hs := by
    obtain ⟨hi', hguards⟩ := hi.callback hj hg hgood hs
    exact ⟨hi', fun k _ => hguards k⟩

theorem all_ordered : CopyRule.all.Nodup ∧ CopyRule.all.Pairwise CopyRule.before := by
  decide

variable {polls : List (PollAnswer CopyRule CopyRule.Input)} {rules rules' : List CopyRule}
  {ended : Bool}

/-- What the loop keeps while it runs; when it ends and was not interrupted, no rule that is left is
interested. -/
theorem Copying.run (hgood : ∀ poll ∈ polls, GoodRevents CopyRule.Good hung poll.revents)
    (hrules : rules.Sublist CopyRule.all) (hi : Copying hung {k | k ∈ rules} s)
    (h : loop polls (rules, s) = .ok (ended, rules', s')) :
    Copying hung {k | k ∈ rules'} s' ∧ (ended = true →
      (∀ poll ∈ polls, poll.ret.toInt < 0 → poll.errno ≠ interrupted) →
        ∀ k ∈ rules', (StreamCopy.rules k).interest s' = false) := by
  obtain ⟨hnodup, hbefore⟩ := all_ordered
  induction polls generalizing rules s with
  | nil =>
    cases h
    exact ⟨hi, fun hended => absurd hended Bool.false_ne_true⟩
  | cons poll polls ih =>
    obtain ⟨hpoll, hpolls⟩ := List.forall_mem_cons.mp hgood
    obtain ⟨⟨ret, rules₁, s₁⟩, hwait, h⟩ := bind_ok_iff.mp h
    obtain ⟨hi₁, hsublist⟩ := (rules_sound hung).waitNextEvent hpoll (hnodup.sublist hrules)
      (hbefore.sublist hrules) hi hwait
    simp only at h
    split_ifs at h with hexit
    · cases h
      subst hexit
      refine ⟨hi₁, fun _ hsignal => ?_⟩
      have hcancel : ∀ (k j : CopyRule) (s : StreamCopy), CopyRule.before k j →
          (StreamCopy.rules k).interest s = false →
            (StreamCopy.rules k).interest ((StreamCopy.rules j).cancel s) = false := by
        intro k j s hbefore hidle
        cases k <;> cases j <;>
          first
          | exact hidle
          | exact absurd hbefore (by decide)
      obtain ⟨hentries, -⟩ := prepare_idle (R := StreamCopy.rules) (s := s)
        (fun k s => id) hcancel (hbefore.sublist hrules)
      cases waitNextEvent_ok hwait with
      | idle hidle =>
        intro k hk
        obtain ⟨c, hc, rfl⟩ := List.mem_map.mp hk
        exact hentries c hc (hidle c hc)
      | interrupted hpoll herrno =>
        exact absurd herrno (hsignal poll List.mem_cons_self (systemCall_error hpoll))
    · obtain ⟨hi', hidle⟩ := ih hpolls (hsublist.trans hrules) hi₁ h
      exact ⟨hi', fun hended hsignal =>
        hidle hended fun p hp => hsignal p (List.mem_cons_of_mem _ hp)⟩

theorem Copying.run_error {e : Exception}
    (hgood : ∀ poll ∈ polls, ∀ k, CopyRule.Good k (poll.revents k).input)
    (hrules : rules.Sublist CopyRule.all) (hi : Copying Set.univ {k | k ∈ rules} s)
    (h : loop polls (rules, s) = .error e) :
    ∃ poll ∈ polls, ∃ k, ((poll.revents k).error = true ∧ e = polledError) ∨
      CopyRule.Refuses e k (poll.revents k).input := by
  obtain ⟨hnodup, hbefore⟩ := all_ordered
  induction polls generalizing rules s with
  | nil => cases h
  | cons poll polls ih =>
    obtain ⟨hpoll, hpolls⟩ := List.forall_mem_cons.mp hgood
    have hrevents : GoodRevents CopyRule.Good Set.univ poll.revents :=
      ⟨hpoll, fun _ _ => Or.inr trivial⟩
    have hsound := rules_sound Set.univ
    rcases bind_error_iff.mp h with hwait | ⟨⟨ret, rules₁, s₁⟩, hwait, h⟩
    · obtain ⟨k, herror | ⟨S, s₁, -, -, -, hcall⟩⟩ := hsound.waitNextEvent_error hrevents
        (hnodup.sublist hrules) (hbefore.sublist hrules) hi hwait
      · exact ⟨poll, List.mem_cons_self, k, Or.inl herror⟩
      · rcases hcall with hthrows | ⟨s₂, hok, hcount, -⟩
        · exact ⟨poll, List.mem_cons_self, k, Or.inr (rules_error (hpoll k) hthrows)⟩
        · exact absurd hcount (rules_served hok)
    · obtain ⟨hi₁, hsublist⟩ := hsound.waitNextEvent hrevents (hnodup.sublist hrules)
        (hbefore.sublist hrules) hi hwait
      simp only at h
      split_ifs at h
      · cases h
      · obtain ⟨p, hp, hk⟩ := ih hpolls (hsublist.trans hrules) hi₁ h
        exact ⟨p, List.mem_cons_of_mem _ hp, hk⟩

theorem Copying.start {socket : FileDescriptor} (heof : socket.eof = false)
    (hclosed : socket.closed = false) (hung : Set CopyRule) :
    Copying hung {k | k ∈ CopyRule.all} { socket := socket } where
  outbound := (Half.Copies.new _).congr (by simp [CopyRule.all]) Iff.rfl
  inbound := (Half.Copies.new _).congr (by simp [CopyRule.all, heof]) Iff.rfl
  input := rfl
  socket := hclosed
  output := rfl
  socketHung h := absurd (show CopyRule.writeSocket ∈ CopyRule.all by decide) h
  outputHung h := absurd (show CopyRule.writeOutput ∈ CopyRule.all by decide) h

end StreamCopy

/-- The bytes go out in the order in which they came in, no more are held back than the stream has
room for, and all have gone out when the end is passed on. -/
structure Half.InOrder (c : Half) : Prop where
  order : c.came = c.went ++ c.stream.buf
  bounded : c.stream.buf.length ≤ bufferSize
  all : c.shutdown = true → c.went = c.came

theorem Half.Copies.inOrder {c : Half} {dry lost : Prop} (h : c.Copies dry lost) : c.InOrder where
  order := h.balanced
  bounded := by
    have hroom := h.consistent.room
    have hcap := h.cap
    omega
  all hshut := by rw [h.balanced, (h.shut hshut).2, List.append_nil]

namespace StreamCopy

variable {socket : FileDescriptor} {answers : Answers} {rules : List CopyRule} {s : StreamCopy}

theorem loop_of_ok {result : Bool × List CopyRule × StreamCopy}
    (h : bidirectionalStreamCopy socket answers = .ok result) :
    loop answers.polls (CopyRule.all, { socket := socket }) = .ok result := by
  obtain ⟨socket', hsocket, h⟩ := bind_ok_iff.mp h
  obtain ⟨input, hinput, h⟩ := bind_ok_iff.mp h
  obtain ⟨output, houtput, h⟩ := bind_ok_iff.mp h
  obtain rfl := FileDescriptor.setBlocking_ok hsocket
  obtain rfl := FileDescriptor.setBlocking_ok hinput
  obtain rfl := FileDescriptor.setBlocking_ok houtput
  exact h

/-- Whatever the kernel reports and how often the copy is called upon, the bytes of both directions
are in order, and their ends are passed on only after all of them. -/
theorem copies_in_order
    (hgood : ∀ poll ∈ answers.polls, ∀ k, CopyRule.Good k (poll.revents k).input)
    (hopen : socket.eof = false ∧ socket.closed = false) {ended : Bool}
    (h : bidirectionalStreamCopy socket answers = .ok (ended, rules, s)) :
    s.outbound.InOrder ∧ s.inbound.InOrder := by
  have hrevents : ∀ poll ∈ answers.polls, GoodRevents CopyRule.Good Set.univ poll.revents :=
    fun poll hpoll => ⟨hgood poll hpoll, fun _ _ => Or.inr trivial⟩
  have hstart := Copying.start hopen.1 hopen.2 Set.univ
  obtain ⟨hi, -⟩ := hstart.run hrevents (List.Sublist.refl _) (loop_of_ok h)
  exact ⟨hi.outbound.inOrder, hi.inbound.inOrder⟩

/-- When the copy returns and was not interrupted, all bytes that came from the standard input have
gone to the socket and its end was passed on, unless the socket was hung up; and likewise the other
way. -/
theorem copies_all {hung : Set CopyRule}
    (hgood : ∀ poll ∈ answers.polls, GoodRevents CopyRule.Good hung poll.revents)
    (hsignal : ∀ poll ∈ answers.polls, poll.ret.toInt < 0 → poll.errno ≠ interrupted)
    (hopen : socket.eof = false ∧ socket.closed = false)
    (h : bidirectionalStreamCopy socket answers = .ok (true, rules, s)) :
    (.writeSocket ∉ hung → s.outbound.shutdown = true ∧ s.outbound.went = s.outbound.came) ∧
      (.writeOutput ∉ hung → s.inbound.shutdown = true ∧ s.inbound.went = s.inbound.came) := by
  have hstart := Copying.start hopen.1 hopen.2 hung
  obtain ⟨hi, hidle⟩ := hstart.run hgood (List.Sublist.refl _) (loop_of_ok h)
  have hidle := hidle rfl hsignal
  constructor
  · intro hhung
    have hleft : .writeSocket ∈ rules := by
      by_contra hgone
      exact hhung (hi.socketHung hgone)
    have hshut : s.outbound.shutdown = true := by
      refine hi.outbound.complete hi.inbound.errorless (fun hdry => ?_) (hidle _ hleft)
      obtain ⟨hk, -⟩ := Classical.not_imp.mp hdry
      exact hidle _ hk
    exact ⟨hshut, hi.outbound.inOrder.all hshut⟩
  · intro hhung
    have hshut : s.inbound.shutdown = true := by
      by_cases hleft : .writeOutput ∈ rules
      · refine hi.inbound.complete hi.outbound.errorless (fun hdry => ?_) (hidle _ hleft)
        obtain ⟨hk, -⟩ := Classical.not_imp.mp hdry
        exact hidle _ hk
      · exact (hi.outputHung hleft).resolve_left hhung
    exact ⟨hshut, hi.inbound.inOrder.all hshut⟩

/-- The flags of a descriptor are not to be had, or not to be set, with the error `e`. -/
def FlagsAnswer.Refuses (e : Exception) (answer : FlagsAnswer) : Prop :=
  ∃ errno, (answer.getfl = some errno ∨ answer.setfl = some errno) ∧ e = .unixError "fcntl" errno

/-- An exception comes from the kernel: it refuses a system call, or reports an error. -/
theorem copy_throws
    (hgood : ∀ poll ∈ answers.polls, ∀ k, CopyRule.Good k (poll.revents k).input)
    (hopen : socket.eof = false ∧ socket.closed = false) {e : Exception}
    (h : bidirectionalStreamCopy socket answers = .error e) :
    (∃ answer ∈ [answers.socketFlags, answers.inputFlags, answers.outputFlags],
      answer.Refuses e) ∨
    ∃ poll ∈ answers.polls, ∃ k, ((poll.revents k).error = true ∧ e = polledError) ∨
      CopyRule.Refuses e k (poll.revents k).input := by
  have hstart := Copying.start hopen.1 hopen.2 Set.univ
  rcases bind_error_iff.mp h with hsocket | ⟨socket', hsocket, h⟩
  · exact Or.inl ⟨_, by simp, FileDescriptor.setBlocking_error hsocket⟩
  · rcases bind_error_iff.mp h with hinput | ⟨input, hinput, h⟩
    · exact Or.inl ⟨_, by simp, FileDescriptor.setBlocking_error hinput⟩
    · rcases bind_error_iff.mp h with houtput | ⟨output, houtput, h⟩
      · exact Or.inl ⟨_, by simp, FileDescriptor.setBlocking_error houtput⟩
      · obtain rfl := FileDescriptor.setBlocking_ok hsocket
        obtain rfl := FileDescriptor.setBlocking_ok hinput
        obtain rfl := FileDescriptor.setBlocking_ok houtput
        exact Or.inr (hstart.run_error hgood (List.Sublist.refl _) h)

/-- A kernel that offers what is in `l` and `m`, one byte for each of `n` polls, and then the end,
and takes one byte at a time. -/
def offers (l m : Buffer) (n : ℕ) : List (PollAnswer CopyRule CopyRule.Input) :=
  (List.range n).map fun i =>
    { ret := 4
      revents := fun k => match k with
        | .readInput => { ready := true, input := offer (l.drop i) }
        | .readSocket => { ready := true, input := offer (m.drop i) }
        | .writeSocket | .writeOutput => { ready := true, input := (takesOne, none) } }
where
  offer (l : Buffer) (size : ℕ) : ReadAnswer :=
    match l, size with
    | [], _ | _, 0 => { ret := 0 }
    | byte :: _, _ + 1 => { ret := 1, stored := [byte] }
  takesOne (buffer : Buffer) : Answer := if buffer = [] then { ret := 0 } else { ret := 1 }

theorem offer_honest (l : Buffer) (size : ℕ) : (offers.offer l size).Honest size := by
  have hzero : (0 : Int64).toInt = 0 := rfl
  have hone : (1 : Int64).toInt = 1 := rfl
  have hnone : ({ ret := 0 } : ReadAnswer).Honest size :=
    ⟨fun _ => rfl, hzero.trans_le (Int.natCast_nonneg _), fun h => absurd h (by decide)⟩
  cases l with
  | nil => exact hnone
  | cons byte l =>
    cases size with
    | zero => exact hnone
    | succ size =>
      refine ⟨fun _ => rfl, ?_, fun h => absurd h (by decide : ¬ (1 : Int64).toInt < 0)⟩
      change (1 : Int64).toInt ≤ _
      omega

theorem takesOne_honest (buffer : Buffer) : (offers.takesOne buffer).Honest buffer := by
  have hzero : (0 : Int64).toInt = 0 := rfl
  have hone : (1 : Int64).toInt = 1 := rfl
  unfold offers.takesOne
  split_ifs with hnil
  · exact ⟨hzero.trans_le (Int.natCast_nonneg _), fun _ => hnil, fun h => absurd h (by decide)⟩
  · have hpos := List.length_pos_of_ne_nil hnil
    refine ⟨?_, fun h => absurd h (by decide), fun h => absurd h (by decide)⟩
    change (1 : Int64).toInt ≤ _
    omega

theorem offers_good {l m : Buffer} {n : ℕ} :
    ∀ poll ∈ offers l m n, GoodRevents CopyRule.Good ∅ poll.revents ∧ poll.errno ≠ interrupted := by
  intro poll hpoll
  obtain ⟨i, -, rfl⟩ := List.mem_map.mp hpoll
  have herrno : (0 : Int32) ≠ interrupted := by decide
  refine ⟨⟨fun k => ?_, fun k hk => ?_⟩, herrno⟩
  · cases k with
    | readInput | readSocket => exact offer_honest _
    | writeSocket | writeOutput => exact takesOne_honest
  · cases k <;> cases hk

/-- After three polls two bytes have gone to the socket, and one to the standard output. -/
theorem copies_in_order_three :
    let answers : Answers := { polls := offers [104, 105] [7] 3 }
    ∃ l, bidirectionalStreamCopy { fdNum := 3 } answers = .ok l ∧
      (l.2.2.outbound.InOrder ∧ l.2.2.inbound.InOrder) ∧ l.2.2.outbound.went = [104, 105] ∧
        l.2.2.inbound.went = [7] := by
  intro answers
  obtain ⟨⟨ended, rules, s⟩, hrun, hwent⟩ := exists_ok
    (r := bidirectionalStreamCopy { fdNum := 3 } answers)
    (P := fun l => l.2.2.outbound.went = [104, 105] ∧ l.2.2.inbound.went = [7])
    (by decide +kernel)
  exact ⟨_, hrun, copies_in_order (fun poll hpoll => (offers_good poll hpoll).1.input) ⟨rfl, rfl⟩
    hrun, hwent⟩

/-- With one more poll, the copy returns. -/
theorem copies_all_four :
    let answers : Answers := { polls := offers [104, 105] [7] 4 }
    ∃ l, bidirectionalStreamCopy { fdNum := 3 } answers = .ok l ∧
      l.2.2.outbound.shutdown = true ∧ l.2.2.outbound.went = [104, 105] := by
  intro answers
  obtain ⟨⟨ended, rules, s⟩, hrun, rfl, hcame⟩ := exists_ok
    (r := bidirectionalStreamCopy { fdNum := 3 } answers)
    (P := fun l => l.1 = true ∧ l.2.2.outbound.came = [104, 105])
    (by decide +kernel)
  obtain ⟨houtbound, -⟩ := copies_all (fun poll hpoll => (offers_good poll hpoll).1)
    (fun poll hpoll _ => (offers_good poll hpoll).2) ⟨rfl, rfl⟩ hrun
  obtain ⟨hshut, hwent⟩ := houtbound (Set.notMem_empty _)
  exact ⟨_, hrun, hshut, hwent.trans hcame⟩

/-- All bytes have gone out, but their end cannot be passed on. -/
theorem copy_throws_refused :
    let enotconn : Errno := ⟨107, by decide⟩
    let poll : PollAnswer CopyRule CopyRule.Input :=
      { ret := 3
        revents := fun k => match k with
          | .readInput | .readSocket => { ready := true, input := offers.offer [] }
          | .writeSocket => { ready := true, input := (offers.takesOne, enotconn) }
          | .writeOutput => { input := (offers.takesOne, none) } }
    let answers : Answers := { polls := [poll, poll] }
    (∃ answer ∈ [answers.socketFlags, answers.inputFlags, answers.outputFlags],
      answer.Refuses (.unixError "shutdown" 107)) ∨
    ∃ poll ∈ answers.polls, ∃ k,
      ((poll.revents k).error = true ∧ Exception.unixError "shutdown" 107 = polledError) ∨
      CopyRule.Refuses (.unixError "shutdown" 107) k (poll.revents k).input := by
  intro enotconn poll answers
  have hgood : ∀ k, CopyRule.Good k (poll.revents k).input := fun k => by
    cases k with
    | readInput | readSocket => exact offer_honest []
    | writeSocket | writeOutput => exact takesOne_honest
  have hrun : bidirectionalStreamCopy { fdNum := 3 } answers =
      .error (.unixError "shutdown" 107) := by decide +kernel
  refine copy_throws (fun p hp => ?_) ⟨rfl, rfl⟩ hrun
  obtain rfl : p = poll := by simpa [answers] using hp
  exact hgood

end StreamCopy

end Sponge
