import BoundedProbing.Probe
import BoundedProbing.Table.Stats

/-!
# Places of a Window

Going forward from a place around the end of an array, and measuring how far
one went.

`ahead` goes a number of steps and `distanceFrom` counts the steps between two
places. They undo each other as long as no step leads once around: a distance
is always less than the capacity, and going that far from the start leads back
to the place it was measured to. In an array smaller than a window the searches
do go around, and then a place is met again at the remainder of its distance.

Both are remainders by a variable, which `omega` does not take. So each is
first restated as a sum or a difference, one case for a walk that passes the
end of the array and one for a walk that does not.

## Theorems

* `ahead_zero`: No step leads nowhere.
* `ahead_lt`: Every step stays in the array.
* `ahead_mod`: A walk around the array leads back.
* `ahead_eq_ite`: The place reached by less than one walk around.
* `distanceFrom_eq_ite`: The steps between two places.
* `distanceFrom_lt`: A distance is less than the capacity.
* `ahead_distanceFrom`: Going the measured distance.
* `distanceFrom_ahead`: Measuring the distance gone.
* `ahead_inj`: Different distances lead to different places.
* `ahead_ahead`: One walk after another.
* `ahead_succ`: One more step.
-/

namespace BoundedProbing

variable {start index distance other capacity : Nat}

theorem ahead_zero (hs : start < capacity) : ahead start 0 capacity = start := by
  rw [ahead, Nat.add_zero, Nat.mod_eq_of_lt hs]

theorem ahead_lt (h : 0 < capacity) (start distance : Nat) :
    ahead start distance capacity < capacity :=
  Nat.mod_lt _ h

/-- A walk once around the array changes nothing. -/
theorem ahead_mod (start distance capacity : Nat) :
    ahead start (distance % capacity) capacity = ahead start distance capacity := by
  rw [ahead, ahead, Nat.add_mod_mod]

/-- The place reached by less than one walk around. -/
theorem ahead_eq_ite (hs : start < capacity) (hd : distance < capacity) :
    ahead start distance capacity =
      if start + distance < capacity then start + distance else start + distance - capacity := by
  rw [ahead]
  by_cases h : start + distance < capacity
  · rw [if_pos h, Nat.mod_eq_of_lt h]
  · rw [if_neg h, Nat.mod_eq_sub_mod (by omega), Nat.mod_eq_of_lt (by omega)]

/-- The steps from one place to another. -/
theorem distanceFrom_eq_ite (hs : start < capacity) (hi : index < capacity) :
    distanceFrom start index capacity =
      if start ≤ index then index - start else index + capacity - start := by
  rw [distanceFrom]
  by_cases h : start ≤ index
  · rw [if_pos h, Nat.mod_eq_sub_mod (by omega), Nat.mod_eq_of_lt (by omega)]
    omega
  · rw [if_neg h, Nat.mod_eq_of_lt (by omega)]

theorem distanceFrom_lt (h : 0 < capacity) (start index : Nat) :
    distanceFrom start index capacity < capacity :=
  Nat.mod_lt _ h

/-- Going the distance to a place leads to that place. -/
theorem ahead_distanceFrom (hs : start < capacity) (hi : index < capacity) :
    ahead start (distanceFrom start index capacity) capacity = index := by
  have hlt : distanceFrom start index capacity < capacity := distanceFrom_lt (by omega) start index
  -- Two of the four cases cannot be: the way back passes the end where the way there did.
  rw [ahead_eq_ite hs hlt, distanceFrom_eq_ite hs hi]
  split <;> split <;> omega

/-- The distance to the place some steps ahead is that number of steps, whole
    walks around left off. -/
theorem distanceFrom_ahead (hs : start < capacity) (distance : Nat) :
    distanceFrom start (ahead start distance capacity) capacity = distance % capacity := by
  have hpos : 0 < capacity := by omega
  have hlt : distance % capacity < capacity := Nat.mod_lt _ hpos
  rw [← ahead_mod, distanceFrom_eq_ite hs (ahead_lt hpos _ _), ahead_eq_ite hs hlt]
  split <;> split <;> omega

/-- Distances short of a walk around lead to different places. -/
theorem ahead_inj (hs : start < capacity) (hd : distance < capacity) (ho : other < capacity)
    (h : ahead start distance capacity = ahead start other capacity) : distance = other := by
  -- Measured from the start, the one place gives both distances.
  have hback := congrArg (fun index => distanceFrom start index capacity) h
  simp only [distanceFrom_ahead hs] at hback
  rwa [Nat.mod_eq_of_lt hd, Nat.mod_eq_of_lt ho] at hback

theorem ahead_ahead (start distance farther capacity : Nat) :
    ahead (ahead start distance capacity) farther capacity =
      ahead start (distance + farther) capacity := by
  rw [ahead, ahead, ahead, Nat.mod_add_mod, Nat.add_assoc]

theorem ahead_succ (start distance capacity : Nat) :
    (ahead start distance capacity + 1) % capacity = ahead start (distance + 1) capacity := by
  rw [ahead, ahead, Nat.mod_add_mod, Nat.add_assoc]

end BoundedProbing
