import Mathlib.Data.List.Nodup
import Mathlib.Data.List.Perm.Subperm
import BoundedProbing.Proofs.Run

/-!
# Saturated Windows

When a key is refused because of the keys that mix to the same word.

Keys of one mix have one home in an array of any size, so in a sound array they
all lie in one window. A window has eight places. So no more than eight stored
keys share a mix, and if eight do, they fill the window of that mix wherever it
is. The search of a ninth such key finds its window full of them at the first
look, before any memory is asked for.

The other direction has to look past the rebuilds of an insertion, since the
window is inspected again after each. A rebuild stores the same keys, so eight
keys that are found to share a mix later shared it from the start.

## Main definitions

* `Table.sharing`: How many stored keys mix to a word.
* `Slots.sharers`: The places of the keys that do.

## Theorems

* `Slots.Sound.sharers_subperm`: They all lie in one window.
* `Slots.Sound.length_sharers_le`: There are at most eight of them.
* `Slots.Sound.saturated_iff`: A window is saturated if there are eight.
* `Table.Valid.put_of_sharing_eq`: A ninth key is refused at the first look.
* `Table.Valid.sharing_of_windowSaturated`: A key so refused is a ninth one.
* `Table.put_windowSaturated_iff`: When a key is refused for this reason.
-/

namespace BoundedProbing

universe u

variable {α : Type u}

namespace Slots

variable {slots : Slots α} {index : Nat} {key : UInt64} {word : UInt32}

/-- The slot holds a key that mixes to the word. -/
def shares (slots : Slots α) (word : UInt32) (index : Nat) : Bool :=
  match slots.read index with
  | .entry stored _ => mix stored == word
  | _ => false

/-- The places of the keys that mix to the word. -/
def sharers (slots : Slots α) (word : UInt32) : List Nat :=
  (List.range slots.size).filter (slots.shares word)

theorem exists_of_shares (h : slots.shares word index = true) :
    ∃ stored, slots.Holds index stored ∧ mix stored = word := by
  unfold shares at h
  cases hread : slots.read index with
  | empty =>
      rw [hread] at h
      exact absurd h Bool.false_ne_true
  | tombstone =>
      rw [hread] at h
      exact absurd h Bool.false_ne_true
  | entry stored value =>
      rw [hread] at h
      exact ⟨stored, ⟨value, hread⟩, eq_of_beq h⟩

theorem isEntry_of_shares (h : slots.shares word index = true) :
    (slots.read index).isEntry = true := by
  rcases exists_of_shares h with ⟨stored, hholds, _⟩
  exact isEntry_of_holds hholds

theorem mem_sharers_iff : index ∈ slots.sharers word ↔ slots.shares word index = true := by
  rw [sharers, List.mem_filter, List.mem_range]
  refine ⟨fun hboth => hboth.2, fun hshares => ⟨?_, hshares⟩⟩
  rcases exists_of_shares hshares with ⟨stored, hholds, _⟩
  exact hholds.lt

theorem nodup_sharers (slots : Slots α) (word : UInt32) : (slots.sharers word).Nodup :=
  List.nodup_range.filter _

/-- There are as many such places as such keys. -/
theorem length_sharers (slots : Slots α) (word : UInt32) :
    (slots.sharers word).length = slots.keys.countP fun stored => mix stored == word := by
  rw [sharers, keys, entries_eq_filterMap, List.countP_map, List.countP_filterMap,
    toList_eq_map_read, List.countP_map, List.countP_eq_length_filter]
  congr 1
  refine List.filter_congr fun index _ => ?_
  unfold shares
  simp only [Function.comp_apply]
  cases slots.read index <;> rfl

/-- Keys of the same mix have the same home, and so the same window. -/
theorem Sound.sharers_subperm (h : slots.Sound) (key : UInt64) :
    (slots.sharers (mix key)).Subperm (windowOf slots key) := by
  refine (nodup_sharers slots (mix key)).subperm ?_
  intro index hmem
  rcases exists_of_shares (mem_sharers_iff.mp hmem) with ⟨stored, hholds, hmix⟩
  -- The place is in the window of its own key, which is the same window.
  have hhome := home_eq_of_mix_eq hmix slots.size
  have hback := ahead_distanceFrom (hholds.home_lt stored) hholds.lt
  have hnear := (h.reached stored index hholds).1
  rw [hhome] at hback hnear
  exact List.mem_map.mpr ⟨_, List.mem_range.mpr hnear, hback⟩

theorem Sound.length_sharers_le (h : slots.Sound) (key : UInt64) :
    (slots.sharers (mix key)).length ≤ probeLimit := by
  have hle := (h.sharers_subperm key).length_le
  rwa [windowOf, length_window] at hle

/-- If eight keys share a mix, they take every place of their window. -/
theorem Sound.shares_of_length_eq (h : slots.Sound)
    (hall : (slots.sharers (mix key)).length = probeLimit) (hmem : index ∈ windowOf slots key) :
    slots.shares (mix key) index = true := by
  -- As many places as the window has, each in the window, are the whole window.
  have hlength : (windowOf slots key).length ≤ (slots.sharers (mix key)).length := by
    rw [windowOf, length_window, hall]
  have hperm := (h.sharers_subperm key).perm_of_length_le hlength
  exact mem_sharers_iff.mp (hperm.mem_iff.mpr hmem)

/-- In an array no smaller than a window, its places are all different. -/
theorem nodup_windowOf (hsize : probeLimit ≤ slots.size) (key : UInt64) :
    (windowOf slots key).Nodup := by
  have hhome : home key slots.size < slots.size :=
    home_lt key (Nat.lt_of_lt_of_le (by decide) hsize)
  refine List.Nodup.map_on ?_ List.nodup_range
  intro left hleft right hright heq
  rw [offsets, List.mem_range] at hleft hright
  exact ahead_inj hhome (by omega) (by omega) heq

/-- A window is saturated if eight stored keys share its mix. -/
theorem Sound.saturated_iff (h : slots.Sound) (key : UInt64) :
    saturated slots key = true ↔
      probeLimit ≤ slots.size ∧ (slots.sharers (mix key)).length = probeLimit := by
  have hall : saturated slots key = true ↔
      probeLimit ≤ slots.size ∧ ∀ index ∈ windowOf slots key,
        slots.shares (mix key) index = true := by
    rw [saturated, Bool.and_eq_true, decide_eq_true_iff, List.all_eq_true]
    rfl
  rw [hall]
  constructor
  · intro hfull
    rcases hfull with ⟨hsize, hshares⟩
    have hsub : windowOf slots key ⊆ slots.sharers (mix key) :=
      fun index hmem => mem_sharers_iff.mpr (hshares index hmem)
    -- The places are different, so the eight of them are eight sharers.
    have hge := ((nodup_windowOf hsize key).subperm hsub).length_le
    rw [windowOf, length_window] at hge
    exact ⟨hsize, Nat.le_antisymm (h.length_sharers_le key) hge⟩
  · intro hfull
    exact ⟨hfull.1, fun index hmem => h.shares_of_length_eq hfull.2 hmem⟩

end Slots

namespace Table

variable {table : Table α} {limit : Nat} {key : UInt64} {value : α}

/-- How many stored keys mix to a word. -/
def sharing (table : Table α) (word : UInt32) : Nat :=
  table.slots.keys.countP fun stored => mix stored == word

theorem Valid.sharing_le (h : table.Valid) (word : UInt32) : table.sharing word ≤ probeLimit := by
  by_cases hzero : table.sharing word = 0
  · rw [hzero]
    exact Nat.zero_le _
  · rcases List.countP_pos_iff.mp (Nat.pos_of_ne_zero hzero) with ⟨stored, _, hmix⟩
    rw [← eq_of_beq hmix, sharing, ← Slots.length_sharers]
    exact h.sound.length_sharers_le stored

/-- Eight entries are at most half of the slots, so the array is larger than a
    window. -/
theorem Valid.saturated_iff (h : table.Valid) (key : UInt64) :
    saturated table.slots key = true ↔ table.sharing (mix key) = probeLimit := by
  rw [h.sound.saturated_iff, sharing, ← Slots.length_sharers]
  refine ⟨fun hboth => hboth.2, fun hfull => ⟨?_, hfull⟩⟩
  -- Keys that share a mix are entries, and those take half of the slots at most.
  have hcount := List.countP_le_length (p := fun stored => mix stored == mix key)
    (l := table.slots.keys)
  rw [← Slots.length_sharers, hfull, Slots.length_keys, ← h.count_eq] at hcount
  have hload := h.two_mul_count_le
  unfold capacity at hload
  omega

theorem Valid.place_eq_exhausted (h : table.Valid) (habsent : key ∉ table.slots.keys)
    (hfull : table.sharing (mix key) = probeLimit) : place table.slots key = .exhausted := by
  have hnone := h.get_eq_none_iff.mp (h.get_eq_none_iff_not_mem_keys.mpr habsent)
  rw [sharing, ← Slots.length_sharers] at hfull
  refine place_eq_exhausted_iff.mpr ⟨hnone, fun distance hlt => ?_⟩
  refine Slots.isEntry_of_shares (h.sound.shares_of_length_eq hfull ?_)
  exact List.mem_map.mpr ⟨distance, List.mem_range.mpr hlt, rfl⟩

theorem Valid.plan_eq_refuse (h : table.Valid) (habsent : key ∉ table.slots.keys)
    (hfull : table.sharing (mix key) = probeLimit) :
    table.plan key = .refuse (.windowSaturated key) := by
  unfold plan
  simp only [h.place_eq_exhausted habsent hfull, (h.saturated_iff key).mpr hfull, if_true]

/-- Eight keys of one mix after some rebuilds were there before. -/
theorem Valid.saturated_of_rebuilds {events : List Event} {last : Table α} (h : table.Valid)
    (hrebuilds : Rebuilds limit key table events last)
    (hplan : last.plan key = .refuse (.windowSaturated key)) :
    key ∉ table.slots.keys ∧ table.sharing (mix key) = probeLimit := by
  rcases hrebuilds.valid h with ⟨hlast, hsame⟩
  -- The rebuilds kept the keys, and absence and the count are about keys alone.
  have hperm := Slots.keys_perm h.sound.distinct hlast.sound.distinct hsame
  have hplanned := last.planned key
  rw [hplan] at hplanned
  cases hplanned with
  | saturated hplace hfull =>
      have hnone := hlast.get_eq_none_iff.mpr (place_eq_exhausted_iff.mp hplace).1
      rw [hlast.get_eq_none_iff_not_mem_keys, hperm.mem_iff] at hnone
      rw [hlast.saturated_iff, sharing, hperm.countP_eq] at hfull
      exact ⟨hnone, hfull⟩

/-- A ninth key of one mix is refused at the first look. -/
theorem Valid.put_of_sharing_eq (h : table.Valid) (habsent : key ∉ table.slots.keys)
    (hfull : table.sharing (mix key) = probeLimit) (limit : Nat) (value : α) :
    table.put limit key value =
      ⟨table, .error (.windowSaturated key), [.exhausted key table.capacity]⟩ := by
  rw [put_eq_of_plan_eq_refuse (h.plan_eq_refuse habsent hfull)]
  unfold sighting
  rw [h.place_eq_exhausted habsent hfull]

/-- A key that is refused for a saturated window is a ninth one. -/
theorem Valid.sharing_of_windowSaturated (h : table.Valid)
    (hanswer : (table.put limit key value).answer = .error (.windowSaturated key)) :
    key ∉ table.slots.keys ∧ table.sharing (mix key) = probeLimit := by
  rcases put_course limit table key value with ⟨events, last, hrebuilds, hend⟩
  generalize table.put limit key value = outcome at hanswer hend
  cases hend with
  | overwrote hplan => exact absurd hanswer (by simp only [reduceCtorEq, not_false_eq_true])
  | occupied hplan => exact absurd hanswer (by simp only [reduceCtorEq, not_false_eq_true])
  | refused hplan =>
      rw [Except.error.injEq] at hanswer
      exact h.saturated_of_rebuilds hrebuilds (hanswer ▸ hplan)
  | stuck hplan herror =>
      -- A rebuild has other reasons to fail.
      rw [Except.error.injEq] at hanswer
      rcases (rebuild_state_of_error herror).2 with ⟨wanted, hcause | hcause⟩ <;>
        exact absurd (hanswer.symm.trans hcause) (by simp only [reduceCtorEq, not_false_eq_true])

/-- A key is refused for a saturated window exactly if it is not stored and
    eight stored keys share its mix. Then nothing happens but the first look at
    the table: no array is asked for, nothing is rebuilt and nothing put back.
    No more than eight stored keys ever share a mix. -/
theorem put_windowSaturated_iff (h : table.Reachable) (limit : Nat) (key : UInt64) (value : α) :
    ((table.put limit key value).answer = .error (.windowSaturated key) ↔
        key ∉ table.slots.keys ∧ table.sharing (mix key) = probeLimit) ∧
      ((table.put limit key value).answer = .error (.windowSaturated key) →
        (table.put limit key value).history = [.exhausted key table.capacity]) ∧
      ∀ word, table.sharing word ≤ probeLimit := by
  have hvalid : table.Valid := h.valid
  refine ⟨⟨hvalid.sharing_of_windowSaturated, ?_⟩, ?_, hvalid.sharing_le⟩
  · intro hninth
    rcases hninth with ⟨habsent, hfull⟩
    rw [hvalid.put_of_sharing_eq habsent hfull]
  · intro hanswer
    rcases hvalid.sharing_of_windowSaturated hanswer with ⟨habsent, hfull⟩
    rw [hvalid.put_of_sharing_eq habsent hfull]

/-- Nine keys whose halves are the same fold to one word. The ninth is refused,
    though there is memory for much larger arrays. -/
theorem put_windowSaturated_iff_ninth :
    let crowded := ((blank 16 : Table Nat).run
      ((List.range 8).map fun n => .put 16 (UInt64.ofNat (4294967297 * n)) n)).1
    crowded.Reachable ∧ 34359738376 ∉ crowded.slots.keys ∧
      crowded.sharing (mix 34359738376) = probeLimit ∧
      (crowded.put 1024 34359738376 8).answer = .error (.windowSaturated 34359738376) ∧
      (crowded.put 1024 34359738376 8).history = [.exhausted 34359738376 crowded.capacity] := by
  intro crowded
  have hmade : withCapacity 16 16 = .ok (blank 16 : Table Nat) := rfl
  have hreach : crowded.Reachable := Reachable.run (.made hmade) _
  have habsent : 34359738376 ∉ crowded.slots.keys := by decide +kernel
  have hfull : crowded.sharing (mix 34359738376) = probeLimit := by decide +kernel
  rcases put_windowSaturated_iff hreach 1024 34359738376 8 with ⟨hiff, hhistory, _⟩
  have hanswer := hiff.mpr ⟨habsent, hfull⟩
  exact ⟨hreach, habsent, hfull, hanswer, hhistory hanswer⟩

end Table

end BoundedProbing
