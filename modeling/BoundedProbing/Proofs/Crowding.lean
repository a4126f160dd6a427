import BoundedProbing.Proofs.Requests
import BoundedProbing.Proofs.Saturation

/-!
# Keys that No Capacity Can Seat

When there is no use in doubling, and what an insertion does then.

A table of any kind of placement needs a seat for every key: a place in the
key's window that no other key has. Keys whose scrambled words lie close
together have overlapping windows, and they stay close together at every
capacity, since a home is only a remainder. So a few keys may be too many for
the places that their windows cover, however large the array gets. That is a
pigeonhole argument about any capacity at once, and nine keys of one mix are
its simplest case.

An insertion notices this simplest case and no other. It counts the keys that
share the mix of the new key. With nine keys of one mix it is refused at the
first look. With five keys each of two neighbouring mixes, ten keys for nine
places, no mix is shared by eight keys, and the insertion goes on doubling
until the memory or the numbers run out. The table survives both.

## Main definitions

* `Seating`: A seat for each key in an array of some capacity.
* `Hopeless`: No power of two has a seating.
* `Table.neighbours`: A table that has no room for one more key.

## Theorems

* `Seating.length_le`: Close keys have few seats.
* `hopeless_of_crowded`: Too many close keys are hopeless.
* `Table.Valid.seating`: A valid table seats its keys.
* `Table.Valid.hopeless_of_windowSaturated`: Only hopeless keys are refused for
  a saturated window.
* `Table.put_of_hopeless`: What becomes of an insertion that is hopeless.
* `Table.put_of_hopeless_neighbours`: One that is not refused at once.
-/

namespace BoundedProbing

universe u

variable {α : Type u}

/-- Every key has a place in its window, and no two keys have the same. -/
structure Seating (keys : List UInt64) (capacity : Nat) (seat : UInt64 → Nat) : Prop where
  near : ∀ key ∈ keys, seat key ∈ window (home key capacity) capacity
  injective : ∀ left ∈ keys, ∀ right ∈ keys, seat left = seat right → left = right

/-- No array of any size can hold these keys together. -/
def Hopeless (keys : List UInt64) : Prop :=
  ∀ capacity, capacity.isPowerOfTwo → ¬ ∃ seat, Seating keys capacity seat

variable {keys part : List UInt64} {capacity : Nat} {seat : UInt64 → Nat}

theorem Seating.mono (h : Seating keys capacity seat) (hsub : part ⊆ keys) :
    Seating part capacity seat where
  near key hmem := h.near key (hsub hmem)
  injective left hleft right hright := h.injective left (hsub hleft) right (hsub hright)

/-- A walk from the remainder of a number leads where one from the number does. -/
theorem ahead_mod_start (start distance capacity : Nat) :
    ahead (start % capacity) distance capacity = ahead start distance capacity := by
  rw [ahead, ahead, Nat.mod_add_mod]

/-- Keys whose words span a short interval have their seats among few places:
    those of one window, and one more for each further word. -/
theorem Seating.length_le {least span : Nat} (h : Seating keys capacity seat) (hnodup : keys.Nodup)
    (hclose : ∀ key ∈ keys, least ≤ (mix key).toNat ∧ (mix key).toNat ≤ least + span) :
    keys.length ≤ span + probeLimit := by
  have hseats : (keys.map seat).Nodup := hnodup.map_on h.injective
  have hsub : keys.map seat ⊆
      (List.range (span + probeLimit)).map fun distance => ahead least distance capacity := by
    intro index hmem
    rcases List.mem_map.mp hmem with ⟨key, hkey, rfl⟩
    rcases List.mem_map.mp (h.near key hkey) with ⟨distance, hdistance, hseat⟩
    rcases hclose key hkey with ⟨hleast, hmost⟩
    have hlt : distance < probeLimit := List.mem_range.mp hdistance
    -- From the least word, the way to the seat leads through the key's own word.
    refine List.mem_map.mpr ⟨(mix key).toNat - least + distance,
      List.mem_range.mpr (by omega), ?_⟩
    have hway : least + ((mix key).toNat - least + distance) = (mix key).toNat + distance := by
      omega
    rw [← hseat, home, ahead_mod_start, ahead, ahead, hway]
  have hle := (hseats.subperm hsub).length_le
  rwa [List.length_map, List.length_map, List.length_range] at hle

/-- Too many close keys are hopeless, and so is every larger set of keys. -/
theorem hopeless_of_crowded {least span : Nat} (hsub : part ⊆ keys) (hnodup : part.Nodup)
    (hclose : ∀ key ∈ part, least ≤ (mix key).toNat ∧ (mix key).toNat ≤ least + span)
    (hmany : span + probeLimit < part.length) : Hopeless keys := by
  intro capacity _ hseated
  rcases hseated with ⟨seat, hseating⟩
  have hle := (hseating.mono hsub).length_le hnodup hclose
  omega

namespace Table

variable {table : Table α} {limit : Nat} {key : UInt64} {value : α}

/-- The places where a valid table finds its keys are a seating of them. -/
theorem Valid.seating (h : table.Valid) :
    ∃ seat, Seating table.slots.keys table.capacity seat := by
  have hfound : ∀ key ∈ table.slots.keys, ∃ index, locate table.slots key = some index ∧
      table.slots.Holds index key := by
    intro key hmem
    rcases Slots.mem_keys_iff.mp hmem with ⟨index, hholds⟩
    exact ⟨index, h.sound.locate_eq_some_iff_holds.mpr hholds, hholds⟩
  refine ⟨fun key => (locate table.slots key).getD 0, ⟨?_, ?_⟩⟩
  · intro key hmem
    rcases hfound key hmem with ⟨index, hlocate, _⟩
    rcases locate_eq_some_iff.mp hlocate with ⟨distance, hlt, hindex, _⟩
    simp only [hlocate, Option.getD_some]
    exact List.mem_map.mpr ⟨distance, List.mem_range.mpr hlt, hindex.symm⟩
  · intro left hleft right hright hseat
    rcases hfound left hleft with ⟨index, hlocate, hholds⟩
    rcases hfound right hright with ⟨other, hother, hheld⟩
    simp only [hlocate, hother, Option.getD_some] at hseat
    rw [← hseat] at hheld
    exact hheld.key_eq hholds

/-- A table that took the key would seat what is hopeless. -/
theorem Valid.put_ne_ok_of_hopeless (h : table.Valid)
    (hhopeless : Hopeless (key :: table.slots.keys)) (previous : Option α) :
    (table.put limit key value).answer ≠ .ok previous := by
  intro hok
  have hput := h.put limit key value
  have hstores := (h.put_ok hok).2
  -- The table afterwards holds the new key and all old ones, so its seats would do.
  have hsub : key :: table.slots.keys ⊆ (table.put limit key value).state.slots.keys := by
    intro stored hmem
    have hkept : ∃ kept, (table.put limit key value).state.slots.Stores stored kept := by
      by_cases hkey : stored = key
      · exact ⟨value, (hstores stored value).mpr (by rw [if_pos hkey])⟩
      · rcases Slots.mem_keys_iff.mp (List.mem_of_ne_of_mem hkey hmem) with ⟨index, kept, hread⟩
        refine ⟨kept, (hstores stored kept).mpr ?_⟩
        rw [if_neg hkey]
        exact ⟨index, hread⟩
    rcases hkept with ⟨kept, index, hread⟩
    exact Slots.mem_keys_iff.mpr ⟨index, kept, hread⟩
  rcases hput.seating with ⟨seat, hseating⟩
  exact hhopeless _ hput.isPowerOfTwo ⟨seat, hseating.mono hsub⟩

/-- Only a hopeless key is refused for a saturated window: it would be the ninth
    of one mix. -/
theorem Valid.hopeless_of_windowSaturated (h : table.Valid)
    (hanswer : (table.put limit key value).answer = .error (.windowSaturated key)) :
    Hopeless (key :: table.slots.keys) := by
  rcases h.sharing_of_windowSaturated hanswer with ⟨habsent, hfull⟩
  let alike := table.slots.keys.filter fun stored => mix stored == mix key
  have hlength : alike.length = probeLimit := by
    rw [← hfull, sharing, List.countP_eq_length_filter]
  refine @hopeless_of_crowded _ (key :: alike) (mix key).toNat 0 ?_ ?_ ?_ ?_
  · exact List.cons_subset_cons key (List.filter_subset_self _)
  · refine List.nodup_cons.mpr ⟨fun hmem => habsent (List.mem_of_mem_filter hmem), ?_⟩
    exact (Slots.nodup_keys h.sound.distinct).filter _
  · intro stored hmem
    rcases List.mem_cons.mp hmem with rfl | hlater
    · exact ⟨le_refl _, le_refl _⟩
    · have hmix := eq_of_beq (List.mem_filter.mp hlater).2
      rw [hmix]
      exact ⟨le_refl _, le_refl _⟩
  · rw [List.length_cons, hlength]
    omega

/-- An insertion that no capacity can satisfy fails and leaves the table as it
    was. If eight stored keys share the mix of the new one, it is refused
    without a request. If fewer do, it asks for larger and larger arrays, until
    one is refused for lack of memory or the size has more than 64 bits. -/
theorem put_of_hopeless (h : table.Reachable) (habsent : key ∉ table.slots.keys)
    (hhopeless : Hopeless (key :: table.slots.keys)) (limit : Nat) (value : α) :
    let outcome := table.put limit key value
    (∃ fault, outcome.answer = .error fault) ∧ outcome.state = table ∧
      (table.sharing (mix key) = probeLimit →
        outcome.answer = .error (.windowSaturated key) ∧ requests outcome.history = []) ∧
      (table.sharing (mix key) < probeLimit →
        (∃ count, requests outcome.history = List.iterate (2 * ·) (table.nextSize key) count) ∧
          ((∃ wanted, outcome.answer = .error (.outOfMemory wanted) ∧ limit < wanted ∧
              (requests outcome.history).getLast? = some wanted) ∨
            ∃ wanted, outcome.answer = .error (.capacityOverflow wanted) ∧
              UInt64.size ≤ 2 * wanted)) := by
  intro outcome
  have hvalid : table.Valid := h.valid
  cases herror : outcome.answer with
  | ok previous => exact absurd herror (hvalid.put_ne_ok_of_hopeless hhopeless previous)
  | error fault =>
      refine ⟨⟨fault, rfl⟩, ?_, fun hfull => ?_, fun hfew => ?_⟩
      · rcases put_course limit table key value with ⟨_, _, _, hend⟩
        exact hend.state_of_error herror
      · have hput : outcome = _ := hvalid.put_of_sharing_eq habsent hfull limit value
        rw [hput] at herror ⊢
        exact ⟨herror.symm, rfl⟩
      · refine ⟨put_requests_eq_iterate limit table key value, ?_⟩
        rcases error_of_put herror with rfl | ⟨wanted, rfl | rfl⟩
        · -- A saturated window would mean eight keys of one mix.
          have hfull := (hvalid.sharing_of_windowSaturated herror).2
          omega
        · rcases requests_of_outOfMemory herror with ⟨granted, hsizes, hover, _⟩
          refine Or.inl ⟨wanted, rfl, hover, ?_⟩
          rw [hsizes, List.getLast?_concat]
        · exact Or.inr ⟨wanted, rfl, (overflow_of_put hvalid.capacity_pos herror).1⟩

/-- Five keys of one mix and four of the next. -/
def neighbours : Table Nat :=
  let zeros : List UInt64 := [0, 4294967297, 8589934594, 12884901891, 17179869188]
  let ones : List UInt64 := [3415846218, 7710813515, 12005780808, 16300748105]
  ((blank 32).run ((zeros ++ ones).map (.put 32 · 0))).1

theorem reachable_neighbours : neighbours.Reachable :=
  Reachable.run (.made (rfl : withCapacity 32 32 = .ok (blank 32 : Table Nat))) _

/-- A fifth key of the second mix is one too many for nine places. -/
theorem hopeless_neighbours : Hopeless (20595715406 :: neighbours.slots.keys) := by
  have hwords : ∀ word ∈ (20595715406 :: neighbours.slots.keys).map fun key => (mix key).toNat,
      0 ≤ word ∧ word ≤ 0 + 1 := by decide +kernel
  exact hopeless_of_crowded (List.Subset.refl _) (by decide +kernel) (List.forall_mem_map.mp hwords)
    (by decide +kernel)

/-- Nine keys of one mix: the ninth is refused at the first look. Ten keys of two
    mixes: the tenth makes the table ask for twice its size, and on. -/
theorem put_of_hopeless_ninth :
    let crowded := ((blank 16 : Table Nat).run
      ((List.range 8).map fun n => .put 16 (UInt64.ofNat (4294967297 * n)) n)).1
    let tenth := neighbours.put 256 20595715406 1
    (crowded.Reachable ∧ 34359738376 ∉ crowded.slots.keys ∧
      Hopeless (34359738376 :: crowded.slots.keys) ∧
      crowded.sharing (mix 34359738376) = probeLimit ∧
      (crowded.put 1024 34359738376 8).state = crowded ∧
      (crowded.put 1024 34359738376 8).answer = .error (.windowSaturated 34359738376) ∧
      requests (crowded.put 1024 34359738376 8).history = []) ∧
      neighbours.Reachable ∧ 20595715406 ∉ neighbours.slots.keys ∧
      Hopeless (20595715406 :: neighbours.slots.keys) ∧
      neighbours.sharing (mix 20595715406) = 4 ∧ tenth.state = neighbours ∧
      (∃ count, requests tenth.history = List.iterate (2 * ·) 64 count) ∧
      ((∃ wanted, tenth.answer = .error (.outOfMemory wanted) ∧ 256 < wanted ∧
          (requests tenth.history).getLast? = some wanted) ∨
        ∃ wanted, tenth.answer = .error (.capacityOverflow wanted) ∧ UInt64.size ≤ 2 * wanted) := by
  intro crowded tenth
  constructor
  · have hmade : withCapacity 16 16 = .ok (blank 16 : Table Nat) := rfl
    have hreach : crowded.Reachable := Reachable.run (.made hmade) _
    have habsent : 34359738376 ∉ crowded.slots.keys := by decide +kernel
    have hwords : ∀ word ∈ (34359738376 :: crowded.slots.keys).map fun key => (mix key).toNat,
        0 ≤ word ∧ word ≤ 0 + 0 := by decide +kernel
    have hhopeless : Hopeless (34359738376 :: crowded.slots.keys) :=
      hopeless_of_crowded (List.Subset.refl _) (by decide +kernel) (List.forall_mem_map.mp hwords)
        (by decide +kernel)
    have hfull : crowded.sharing (mix 34359738376) = probeLimit := by decide +kernel
    rcases put_of_hopeless hreach habsent hhopeless 1024 8 with ⟨_, hstate, hrefused, _⟩
    exact ⟨hreach, habsent, hhopeless, hfull, hstate, (hrefused hfull).1, (hrefused hfull).2⟩
  · have habsent : 20595715406 ∉ neighbours.slots.keys := by decide +kernel
    have hfour : neighbours.sharing (mix 20595715406) = 4 := by decide +kernel
    have hsize : neighbours.nextSize 20595715406 = 64 := by decide +kernel
    rcases put_of_hopeless reachable_neighbours habsent hopeless_neighbours 256 1 with
      ⟨_, hstate, _, hgrown⟩
    rw [hfour, hsize] at hgrown
    rcases hgrown (by decide) with ⟨hrequests, hanswer⟩
    exact ⟨reachable_neighbours, habsent, hopeless_neighbours, hfour, hstate, hrequests, hanswer⟩

/-- Five keys each of two neighbouring mixes: ten keys for the nine places that
    their windows cover at any capacity. No mix is shared by eight keys, and
    the tenth key makes the table ask for all the memory there is. -/
theorem put_of_hopeless_neighbours :
    let zeros : List UInt64 := [0, 4294967297, 8589934594, 12884901891, 17179869188]
    let ones : List UInt64 := [3415846218, 7710813515, 12005780808, 16300748105]
    let crowded := ((blank 32 : Table Nat).run ((zeros ++ ones).map (.put 32 · 0))).1
    crowded.Reachable ∧ 20595715406 ∉ crowded.slots.keys ∧
      Hopeless (20595715406 :: crowded.slots.keys) ∧
      (crowded.put 256 20595715406 1).answer = .error (.outOfMemory 512) ∧
      requests (crowded.put 256 20595715406 1).history = [64, 128, 256, 512] := by
  intro zeros ones crowded
  exact ⟨reachable_neighbours, by decide +kernel, hopeless_neighbours, by decide +kernel,
    by decide +kernel⟩

end Table

end BoundedProbing
