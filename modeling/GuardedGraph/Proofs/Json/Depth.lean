import GuardedGraph.Proofs.Value.Stored

/-!
How deep JSON trees nest. Readers are told how many arrays and objects may still nest, and give nothing when
they come to one that may not.
-/

namespace GuardedGraph.Json

mutual

/-- How many arrays and objects nest in the tree at most. -/
def depth : Json → Nat
  | .array items => itemsDepth items + 1
  | .object members => membersDepth members + 1
  | _ => 0

def itemsDepth : List Json → Nat
  | [] => 0
  | j :: js => max j.depth (itemsDepth js)

def membersDepth : List (Option String × Json) → Nat
  | [] => 0
  | (_, j) :: ms => max j.depth (membersDepth ms)

end

theorem itemsDepth_le {js : List Json} {n : Nat} : itemsDepth js ≤ n ↔ ∀ j ∈ js, j.depth ≤ n := by
  induction js with
  | nil => simp [itemsDepth]
  | cons j js ih => rw [itemsDepth, Nat.max_le, ih, List.forall_mem_cons]

theorem membersDepth_le {ms : List (Option String × Json)} {n : Nat} :
    membersDepth ms ≤ n ↔ ∀ m ∈ ms, m.2.depth ≤ n := by
  induction ms with
  | nil => simp [membersDepth]
  | cons m ms ih => rw [membersDepth, Nat.max_le, ih, List.forall_mem_cons]

@[simp] theorem depth_record {ms : List (String × Json)} {n : Nat} :
    (record ms).depth ≤ n ↔ 0 < n ∧ ∀ m ∈ ms, m.2.depth ≤ n - 1 := by
  rw [record, depth]
  cases n with
  | zero => simp
  | succ n => rw [Nat.add_le_add_iff_right, membersDepth_le, List.forall_mem_map, Nat.add_sub_cancel]; simp

@[simp] theorem depth_string (s : String) : (string s).depth = 0 := rfl

@[simp] theorem depth_int (i : Int) : (int i).depth = 0 := rfl

@[simp] theorem depth_double (d : Double) : (double d).depth = 0 := by
  unfold double
  split <;> rfl

@[simp] theorem depth_bytes (b : ByteArray) : (bytes b).depth = 1 := by
  have all : itemsDepth (b.data.toList.map fun x => int x.toNat) ≤ 0 := by
    rw [itemsDepth_le, List.forall_mem_map]
    exact fun x _ => Nat.le_refl 0
  rw [bytes, depth, Nat.le_zero.mp all]

/-! ### Readers -/

theorem isFinite_double? {j : Json} {d : Double} (h : j.double? = some d) : d.isFinite = true := by
  cases j with
  | number n =>
    obtain ⟨finite, h⟩ := Option.ite_none_right_eq_some.mp h
    exact Option.some.inj h ▸ finite
  | _ => exact absurd h (by simp [double?])

theorem fields?_pos {j : Json} {limit : Nat} {names : List String} {r : List (Option Json)}
    (h : j.fields? limit names = some r) : 0 < limit := by
  cases j with
  | object members => exact Nat.pos_of_ne_zero (Option.ite_none_right_eq_some.mp h).1.1
  | array items => exact Nat.pos_of_ne_zero (Option.ite_none_right_eq_some.mp h).1.1
  | _ => exact absurd h (by simp [fields?])

theorem array?_pos {j : Json} {limit : Nat} {items : List Json} (h : j.array? limit = some items) : 0 < limit := by
  cases j with
  | array js => exact Nat.pos_of_ne_zero (Option.ite_none_left_eq_some.mp h).1
  | _ => exact absurd h (by simp [array?])

theorem bytes?_pos {j : Json} {limit : Nat} {b : ByteArray} (h : j.bytes? limit = some b) : 0 < limit := by
  obtain ⟨items, read, -⟩ := Option.bind_eq_some_iff.mp h
  exact array?_pos read

theorem embedded?_pos {j : Json} {place : Place} {limit : Nat} {tag : String} {names : List String} {r : String × Json}
    (h : j.embedded? place limit tag names = some r) : 0 < limit := by
  unfold embedded? at h
  split at h
  · rename_i sound
    split at h
    · exact Nat.pos_of_ne_zero fun zero => absurd sound (by simp [zero, Json.sound])
    · exact Nat.pos_of_ne_zero fun zero => absurd sound (by simp [zero, Json.sound])
    · exact absurd h (by simp)
  · exact absurd h (by simp)

theorem word?_lt {j : Json} {n : Nat} (h : j.word? = some n) : n < 0x10000000000000000 := by
  obtain ⟨i, read, rfl⟩ := Option.map_eq_some_iff.mp h
  cases j with
  | number m =>
    have := (Option.filter_eq_some_iff.mp read).2
    simp only [decide_eq_true_eq] at this
    omega
  | _ => exact absurd read (by simp [integer?])

@[simp] theorem sound_string (s : String) (limit : Nat) : (string s).sound limit = true := rfl

/-- A record is sound if its fields are, and it may nest. -/
theorem sound_record {ms : List (String × Json)} {limit : Nat} :
    (record ms).sound limit = true ↔ 0 < limit ∧ ∀ m ∈ ms, m.2.sound (limit - 1) = true := by
  cases limit with
  | zero => simp [record, sound]
  | succ limit =>
    rw [record, sound]
    induction ms with
    | nil => simp [soundMembers]
    | cons m ms ih => simpa [soundMembers] using fun _ => ih

end GuardedGraph.Json
