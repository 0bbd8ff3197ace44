import Sponge.Router.LongestPrefix

/-! # Routes that are added again

A call for a prefix that is in the table updates the next hop of its entry, which keeps the
place and the interface of the first call. The table of the last calls alone has them in another
order, each with its own interface.
-/

namespace Sponge

open KeyedList

/-- The table that the calls leave: the first call of each pair at its place, with the next hop of
the last one. -/
def mergedCalls (calls : List Route) : List Route :=
  (firsts Route.pair calls).map fun r => r.updatedBy (lastLike Route.pair calls r)

/-- The last call of each pair. -/
def lastCalls (calls : List Route) : List Route := lasts Route.pair calls

/-- The route that decides in the order of the first calls and the one that decides in the order of
the last calls give the same interface and the same next hop. -/
def LastWins (calls : List Route) (dst : UInt32) : Prop :=
  ∀ r r' : Route, r.Decides (mergedCalls calls) dst → r'.Decides (lastCalls calls) dst →
    r.target dst = r'.target dst

variable {beyond : UInt32 → UInt8 → UInt32} {dst : UInt32}
  {routes routes' calls : List Route} {r : Route}

theorem foldl_addRouteTo_merged (calls : List Route) :
    calls.foldl addRouteTo [] = mergedCalls calls := by
  have hpair : ∀ r r' : Route, (r.updatedBy r').pair = r.pair := fun _ _ => rfl
  have hself : ∀ r : Route, r.updatedBy r = r := fun _ => rfl
  have hlast : ∀ r r' r'' : Route, (r.updatedBy r').updatedBy r'' = r.updatedBy r'' :=
    fun _ _ _ => rfl
  rw [foldl_addRouteTo_eq_upsert, foldl_upsert hpair hself hlast]
  rfl

theorem foldl_addRouteTo_last (calls : List Route) :
    (lastCalls calls).foldl addRouteTo [] = lastCalls calls := by
  have hnodup : ((lastCalls calls).map Route.pair).Nodup := nodup_lasts
  rw [foldl_addRouteTo_eq_upsert, foldl_upsert_of_nodup (by simpa using hnodup), List.nil_append]

theorem mem_pair_mergedCalls {k : UInt32 × UInt8} :
    k ∈ (mergedCalls calls).map Route.pair ↔ k ∈ calls.map Route.pair := by
  have hfirsts : k ∈ (firsts Route.pair calls).map Route.pair ↔ k ∈ calls.map Route.pair :=
    mem_map_firsts
  rw [mergedCalls, List.map_map]
  exact hfirsts

theorem mem_pair_iff {k : UInt32 × UInt8} :
    k ∈ (mergedCalls calls).map Route.pair ↔ k ∈ (lastCalls calls).map Route.pair :=
  mem_pair_mergedCalls.trans mem_map_lasts.symm

theorem Route.Matches.of_pair {r r' : Route} (h : r.Matches dst) (hpair : r.pair = r'.pair) :
    r'.Matches dst := by
  obtain ⟨hnetwork, hlen⟩ := Prod.mk.inj hpair
  unfold Route.Matches at h ⊢
  rwa [← hnetwork, ← hlen]

theorem exists_matches_of_pairs
    (hpairs : ∀ k ∈ routes.map Route.pair, k ∈ routes'.map Route.pair) (hr : r ∈ routes)
    (hm : r.Matches dst) : ∃ r' ∈ routes', r'.Matches dst := by
  obtain ⟨r', hr', hpair⟩ := List.mem_map.mp (hpairs _ (List.mem_map_of_mem hr))
  exact ⟨r', hr', hm.of_pair hpair.symm⟩

theorem length_le_of_pairs (hlen : ∀ r ∈ calls, r.prefixLength ≤ 32)
    (hpairs : ∀ k ∈ routes.map Route.pair, k ∈ calls.map Route.pair) :
    ∀ r ∈ routes, r.prefixLength ≤ 32 := by
  intro r hr
  obtain ⟨c, hc, hpair⟩ := List.mem_map.mp (hpairs _ (List.mem_map_of_mem hr))
  have hsame : c.prefixLength = r.prefixLength := congrArg Prod.snd hpair
  exact hsame ▸ hlen c hc

/-- The two scans select the same exactly when the last call wins. -/
theorem selected_eq_iff (hlen : ∀ r ∈ calls, r.prefixLength ≤ 32) :
    (scan beyond dst (mergedCalls calls) {}).selected =
      (scan beyond dst (lastCalls calls) {}).selected ↔ LastWins calls dst := by
  have hmerged : ∀ r ∈ mergedCalls calls, r.prefixLength ≤ 32 :=
    length_le_of_pairs hlen fun k hk => mem_pair_mergedCalls.mp hk
  have hlast : ∀ r ∈ lastCalls calls, r.prefixLength ≤ 32 := fun r hr =>
    hlen r (mem_of_mem_lasts hr)
  rcases selected_scan beyond hmerged dst with ⟨r, hr, hsel⟩ | ⟨hno, hsel⟩ <;>
    rcases selected_scan beyond hlast dst with ⟨r', hr', hsel'⟩ | ⟨hno', hsel'⟩ <;>
    rw [hsel, hsel']
  · constructor
    · intro heq d d' hd hd'
      rw [hd.unique hr, hd'.unique hr']
      exact Option.some.inj heq
    · intro h
      rw [h r r' hr hr']
  · obtain ⟨hmem, hm⟩ := hr.mem_matches
    obtain ⟨c, hc, hmc⟩ := exists_matches_of_pairs (fun k hk => mem_pair_iff.mp hk) hmem hm
    exact absurd hmc (hno' c hc)
  · obtain ⟨hmem, hm⟩ := hr'.mem_matches
    obtain ⟨c, hc, hmc⟩ := exists_matches_of_pairs (fun k hk => mem_pair_iff.mpr hk) hmem hm
    exact absurd hmc (hno c hc)
  · refine iff_of_true rfl fun d _ hd _ => ?_
    obtain ⟨hmem, hm⟩ := hd.mem_matches
    exact absurd hm (hno d hmem)

/-- A first call and the last call of its pair, where the pair decides in both orders: the last call
wins exactly if the two name the same interface. -/
theorem lastWins_iff_of_pair {first last : Route} (hfirst : first ∈ firsts Route.pair calls)
    (hr : r.Decides (mergedCalls calls) dst) (hlast : last.Decides (lastCalls calls) dst)
    (hpair : first.pair = r.pair) (hpair' : first.pair = last.pair) :
    LastWins calls dst ↔ first.interfaceNum = last.interfaceNum := by
  -- the deciding entry is the one that the first call made and the last call updated
  have hupdated : r = first.updatedBy last := by
    obtain ⟨c, hc, rfl⟩ := List.mem_map.mp hr.mem_matches.1
    have hcf : c = first :=
      List.inj_on_of_nodup_map nodup_firsts hc hfirst hpair.symm
    rw [hcf, lastLike_of_mem_lasts hlast.mem_matches.1 hpair'.symm]
  have htarget : r.target dst = last.target dst ↔ first.interfaceNum = last.interfaceNum := by
    rw [hupdated, Route.target, Route.target, Prod.mk_inj]
    exact and_iff_left rfl
  rw [← htarget]
  constructor
  · intro h
    exact h r last hr hlast
  · intro h d d' hd hd'
    rw [hd.unique hr, hd'.unique hlast]
    exact h

namespace Router

/-- With the table of all calls, a datagram goes the same way as with that of the last calls exactly
when the last call wins for its address, or it goes nowhere for its time to live. -/
theorem handsTo_lastCalls_iff (hlen : ∀ r ∈ calls, r.prefixLength ≤ 32)
    (interfaces : List AsyncNetworkInterface) (dgram : IPv4Datagram) :
    handsTo beyond ⟨interfaces, calls.foldl addRouteTo []⟩ dgram =
        handsTo beyond ⟨interfaces, (lastCalls calls).foldl addRouteTo []⟩ dgram ↔
      dgram.header.ttl ≤ 1 ∨ LastWins calls dgram.header.dst := by
  rw [foldl_addRouteTo_merged, foldl_addRouteTo_last]
  by_cases httl : dgram.header.ttl ≤ 1
  · rw [handsTo, handsTo, if_pos httl, if_pos httl]
    exact iff_of_true rfl (Or.inl httl)
  · rw [handsTo_eq_selected _ httl, handsTo_eq_selected _ httl, or_iff_right httl]
    exact selected_eq_iff hlen

/-- A default route that is given another next hop on its interface. -/
theorem handsTo_lastCalls_iff_default :
    let calls : List Route := [⟨0, 0, some ⟨0x0A000001, 0⟩, 2⟩, ⟨0, 0, some ⟨0x0A000002, 0⟩, 2⟩]
    let dgram : IPv4Datagram := { header := { ttl := 64, dst := 0x0A010203 } }
    handsTo (fun _ _ => 0) ⟨[], calls.foldl addRouteTo []⟩ dgram =
        handsTo (fun _ _ => 0) ⟨[], (lastCalls calls).foldl addRouteTo []⟩ dgram ↔
      dgram.header.ttl ≤ 1 ∨ LastWins calls dgram.header.dst := by
  intro calls dgram
  exact handsTo_lastCalls_iff (by decide) [] dgram

/-- A route that is added again for another interface keeps the old one. -/
theorem handsTo_keeps_interface :
    let calls : List Route := [⟨0x0A000000, 8, some ⟨0x0B000001, 0⟩, 0⟩,
      ⟨0x0A000000, 8, some ⟨0x0C000001, 0⟩, 1⟩]
    let dgram : IPv4Datagram := { header := { ttl := 64, dst := 0x0A010203 } }
    (∀ r ∈ calls, r.prefixLength ≤ 32) ∧
      ∀ beyond, handsTo beyond ⟨[], calls.foldl addRouteTo []⟩ dgram = some (0, ⟨0x0C000001, 0⟩) ∧
        handsTo beyond ⟨[], (lastCalls calls).foldl addRouteTo []⟩ dgram =
          some (1, ⟨0x0C000001, 0⟩) := by
  intro calls dgram
  refine ⟨by decide, fun beyond => ?_⟩
  have hfirst : Route.isSelected beyond ⟨0x0A000000, 8, some ⟨0x0C000001, 0⟩, 0⟩
      0x0A010203 {} = true := (Route.isSelected_iff (by decide)).mpr (by decide)
  have hsecond : Route.isSelected beyond ⟨0x0A000000, 8, some ⟨0x0C000001, 0⟩, 1⟩
      0x0A010203 {} = true := (Route.isSelected_iff (by decide)).mpr (by decide)
  have hall : calls.foldl addRouteTo [] = [⟨0x0A000000, 8, some ⟨0x0C000001, 0⟩, 0⟩] := by decide
  have hlast : (lastCalls calls).foldl addRouteTo [] =
      [⟨0x0A000000, 8, some ⟨0x0C000001, 0⟩, 1⟩] := by decide
  rw [hall, hlast, handsTo, handsTo, if_neg (by decide), if_neg (by decide)]
  simp only [dgram, scan, hfirst, hsecond, if_true, Option.map_some, and_self]

end Router

end Sponge
