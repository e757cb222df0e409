import GuardedGraph.Proofs.Json.Depth

/-!
Shapes as stored: a shape is read as it was when its numbers are. The record of a shape is set aside until its
name is known, so all of it has to be sound.
-/

namespace GuardedGraph

/-! ### Numbers -/

theorem Double.numEq_self {d : Double} (finite : d.isFinite = true) : d.numEq d = true := by
  have number : d.isNaN = false := by
    rw [isFinite, decide_eq_true_eq] at finite
    exact decide_eq_false (Nat.lt_asymm finite)
  simp [numEq, compare?, number]

/-- The text of the double is read as the double again. -/
def Double.ReadsBack (d : Double) : Prop := (Json.double d).double? = some d

instance (d : Double) : Decidable d.ReadsBack := inferInstanceAs (Decidable (_ = _))

theorem Double.ReadsBack.isFinite {d : Double} (back : d.ReadsBack) : d.isFinite = true := Json.isFinite_double? back

theorem Double.ReadsBack.sound {d : Double} (back : d.ReadsBack) (limit : Nat) :
    (Json.double d).sound limit = true := by
  unfold ReadsBack at back
  cases spelt : Json.double d with
  | number n =>
    rw [spelt, Json.double?] at back
    rw [Json.sound, back]
    rfl
  | _ => simp [spelt, Json.double?] at back

namespace Geo

/-! ### Points -/

def Point.numbers (p : Point) : List Double := [p.latitude, p.longitude]

@[simp] theorem Point.depth_toJson {p : Point} {n : Nat} : p.toJson.depth ≤ n ↔ 0 < n := by simp [Point.toJson]

theorem Point.ofJson?_ok {limit : Nat} {j : Json} {p : Point} (h : Point.ofJson? limit j = some p) :
    0 < limit ∧ p.isFinite = true := by
  obtain ⟨fields, read, h⟩ := Option.bind_eq_some_iff.mp h
  refine ⟨Json.fields?_pos read, ?_⟩
  split at h
  · obtain ⟨lat, first, h⟩ := Option.bind_eq_some_iff.mp h
    obtain ⟨lon, second, h⟩ := Option.bind_eq_some_iff.mp h
    obtain rfl := Option.some.inj h
    simp [Point.isFinite, Json.isFinite_double? first, Json.isFinite_double? second]
  · exact absurd h (by simp)

theorem Point.ofJson?_toJson {limit : Nat} {p : Point} :
    Point.ofJson? limit p.toJson = some p ↔ 0 < limit ∧ ∀ d ∈ p.numbers, d.ReadsBack := by
  have fields := Json.fields?_record limit [("latitude", .double p.latitude), ("longitude", .double p.longitude)]
    (by simp)
  simp only [List.map_cons, List.map_nil] at fields
  rw [Point.ofJson?, Point.toJson, fields]
  cases limit with
  | zero => simp
  | succ limit =>
    obtain ⟨lat, lon⟩ := p
    simp [numbers, Double.ReadsBack, Option.bind_eq_some_iff]

theorem Point.sound_toJson {p : Point} (back : ∀ d ∈ p.numbers, d.ReadsBack) {limit : Nat} (pos : 0 < limit) :
    p.toJson.sound limit = true := by
  simp only [numbers, List.forall_mem_cons] at back
  rw [Point.toJson, Json.sound_record]
  simp [pos, back.1.sound, back.2.1.sound]

/-! ### Shapes -/

def Shape.numbers : Shape → List Double
  | .point p => p.numbers
  | .circle c r => r :: c.numbers
  | .rect a b => a.numbers ++ b.numbers

theorem Shape.same_self {s : Shape} (finite : s.isFinite = true) : s.same s = true := by
  have point (p : Point) (finite : p.isFinite = true) : p.same p = true := by
    obtain ⟨lat, lon⟩ := Bool.and_eq_true_iff.mp finite
    rw [Point.same, Double.numEq_self lat, Double.numEq_self lon]
    rfl
  cases s with
  | point p => exact point p finite
  | circle c r =>
    obtain ⟨center, radius⟩ := Bool.and_eq_true_iff.mp finite
    rw [same, point c center, Double.numEq_self radius]
    rfl
  | rect a b =>
    obtain ⟨first, second⟩ := Bool.and_eq_true_iff.mp finite
    rw [same, point a first, point b second]
    rfl

theorem Shape.isFinite_of_readsBack {s : Shape} (back : ∀ d ∈ s.numbers, d.ReadsBack) : s.isFinite = true := by
  have point (p : Point) (back : ∀ d ∈ p.numbers, d.ReadsBack) : p.isFinite = true := by
    simp only [Point.numbers, List.forall_mem_cons] at back
    rw [Point.isFinite, back.1.isFinite, back.2.1.isFinite]
    rfl
  cases s with
  | point p => exact point p back
  | circle c r =>
    obtain ⟨radius, center⟩ := List.forall_mem_cons.mp back
    rw [isFinite, point c center, radius.isFinite]
    rfl
  | rect a b =>
    obtain ⟨first, second⟩ := List.forall_mem_append.mp back
    rw [isFinite, point a first, point b second]
    rfl

theorem Shape.ofJson?_ok {place : Json.Place} {limit : Nat} {j : Json} {s : Shape}
    (h : Shape.ofJson? place limit j = some s) : s.toJson.depth ≤ limit ∧ s.isFinite = true := by
  obtain ⟨⟨name, fields⟩, embedded, h⟩ := Option.bind_eq_some_iff.mp h
  have pos := Json.embedded?_pos embedded
  dsimp only at h
  split at h
  · obtain ⟨p, point, h⟩ := Option.bind_eq_some_iff.mp h
    obtain rfl := Option.some.inj h
    simpa [Shape.toJson, Shape.isFinite, pos] using (Point.ofJson?_ok point).2
  split at h
  · obtain ⟨parts, -, h⟩ := Option.bind_eq_some_iff.mp h
    split at h
    · obtain ⟨c, center, h⟩ := Option.bind_eq_some_iff.mp h
      obtain ⟨r, radius, h⟩ := Option.bind_eq_some_iff.mp h
      obtain rfl := Option.some.inj h
      obtain ⟨deep, finite⟩ := Point.ofJson?_ok center
      simp [Shape.toJson, Shape.isFinite, pos, deep, finite, Json.isFinite_double? radius]
    · exact absurd h (by simp)
  split at h
  · obtain ⟨parts, -, h⟩ := Option.bind_eq_some_iff.mp h
    split at h
    · obtain ⟨a, first, h⟩ := Option.bind_eq_some_iff.mp h
      obtain ⟨b, second, h⟩ := Option.bind_eq_some_iff.mp h
      obtain rfl := Option.some.inj h
      obtain ⟨deep, finite⟩ := Point.ofJson?_ok first
      simp [Shape.toJson, Shape.isFinite, pos, deep, finite, (Point.ofJson?_ok second).2]
    · exact absurd h (by simp)
  · exact absurd h (by simp)

theorem Shape.ofJson?_of_sound {limit : Nat} {s : Shape} (sound : s.toJson.sound limit = true) :
    Shape.ofJson? .inText limit s.toJson = match s with
      | .point p => do return .point (← Point.ofJson? limit p.toJson)
      | .circle c r => do return .circle (← Point.ofJson? (limit - 1) c.toJson) (← (Json.double r).double?)
      | .rect a b => do
        return .rect (← Point.ofJson? (limit - 1) a.toJson) (← Point.ofJson? (limit - 1) b.toJson) := by
  cases s with
  | point p =>
    rw [Shape.toJson] at sound
    rw [Shape.ofJson?, Shape.toJson, Json.embedded?_record (by simp), if_pos sound]
    simp only [bind, Option.bind, if_true]
    rfl
  | circle c r =>
    rw [Shape.toJson] at sound
    have pos := (Json.sound_record.mp sound).1
    have fields := Json.fields?_record limit [("center", c.toJson), ("radius_km", .double r)] (by simp)
    simp only [List.map_cons, List.map_nil] at fields
    rw [Shape.ofJson?, Shape.toJson, Json.embedded?_record (by simp), if_pos sound]
    simp only [bind, Option.bind, if_neg (show ¬"Circle" = "Point" by decide), if_true, fields,
      if_neg (Nat.ne_of_gt pos)]
  | rect a b =>
    rw [Shape.toJson] at sound
    have pos := (Json.sound_record.mp sound).1
    have fields := Json.fields?_record limit [("top_left", a.toJson), ("bottom_right", b.toJson)] (by simp)
    simp only [List.map_cons, List.map_nil] at fields
    rw [Shape.ofJson?, Shape.toJson, Json.embedded?_record (by simp), if_pos sound]
    simp only [bind, Option.bind, if_neg (show ¬"Rect" = "Point" by decide),
      if_neg (show ¬"Rect" = "Circle" by decide), if_true, fields, if_neg (Nat.ne_of_gt pos)]

theorem Shape.sound_toJson {s : Shape} (back : ∀ d ∈ s.numbers, d.ReadsBack) {limit : Nat}
    (deep : s.toJson.depth ≤ limit) : s.toJson.sound limit = true := by
  cases s with
  | point p =>
    simp only [numbers, Point.numbers, List.forall_mem_cons] at back
    simp only [Shape.toJson, Json.depth_record] at deep
    rw [Shape.toJson, Json.sound_record]
    simp [deep.1, back.1.sound, back.2.1.sound]
  | circle c r =>
    simp only [numbers, List.forall_mem_cons] at back
    simp only [Shape.toJson, Json.depth_record, List.forall_mem_cons, Point.depth_toJson] at deep
    rw [Shape.toJson, Json.sound_record]
    simp [deep.1, back.1.sound, Point.sound_toJson back.2 deep.2.2.1]
  | rect a b =>
    simp only [numbers, List.forall_mem_append] at back
    simp only [Shape.toJson, Json.depth_record, List.forall_mem_cons, Point.depth_toJson] at deep
    rw [Shape.toJson, Json.sound_record]
    simp [deep.1, Point.sound_toJson back.1 deep.2.2.1, Point.sound_toJson back.2 deep.2.2.1]

theorem Shape.ofJson?_toJson {limit : Nat} {s : Shape} :
    Shape.ofJson? .inText limit s.toJson = some s ↔ s.toJson.depth ≤ limit ∧ ∀ d ∈ s.numbers, d.ReadsBack := by
  by_cases sound : s.toJson.sound limit = true
  · rw [Shape.ofJson?_of_sound sound]
    cases s with
    | point p => simp [Option.bind_eq_some_iff, Point.ofJson?_toJson, numbers, toJson]
    | circle c r =>
      have parts : (do return circle (← Point.ofJson? (limit - 1) c.toJson) (← (Json.double r).double?)) =
          some (circle c r) ↔ Point.ofJson? (limit - 1) c.toJson = some c ∧ r.ReadsBack := by
        simp [Option.bind_eq_some_iff, Double.ReadsBack]
      have deep : (circle c r).toJson.depth ≤ limit ↔ 0 < limit - 1 := by
        simp only [toJson, Json.depth_record, List.forall_mem_cons, Point.depth_toJson, Json.depth_string,
          Json.depth_double]
        exact ⟨fun h => h.2.2.1, fun h => ⟨by omega, Nat.zero_le _, h, Nat.zero_le _, List.forall_mem_nil _⟩⟩
      rw [parts, Point.ofJson?_toJson, deep, numbers, List.forall_mem_cons, and_assoc, and_comm (a := r.ReadsBack)]
    | rect a b =>
      have parts : (do
            return rect (← Point.ofJson? (limit - 1) a.toJson) (← Point.ofJson? (limit - 1) b.toJson)) =
          some (rect a b) ↔
            Point.ofJson? (limit - 1) a.toJson = some a ∧ Point.ofJson? (limit - 1) b.toJson = some b := by
        simp [Option.bind_eq_some_iff]
      have deep : (rect a b).toJson.depth ≤ limit ↔ 0 < limit - 1 := by
        simp only [toJson, Json.depth_record, List.forall_mem_cons, Point.depth_toJson, Json.depth_string]
        exact ⟨fun h => h.2.2.1, fun h => ⟨by omega, Nat.zero_le _, h, h, List.forall_mem_nil _⟩⟩
      rw [parts, Point.ofJson?_toJson, Point.ofJson?_toJson, deep, numbers, List.forall_mem_append,
        and_and_and_comm, and_self]
  · have unread : Shape.ofJson? .inText limit s.toJson = none := by
      unfold Shape.ofJson? Json.embedded?
      rw [if_neg sound]
      rfl
    rw [unread]
    exact iff_of_false (by simp) fun h => sound (Shape.sound_toJson h.2 h.1)

end Geo

end GuardedGraph
