import GuardedGraph.Proofs.Calendar.Text
import GuardedGraph.Proofs.Geo.Stored

/-!
Which values come back of their stored form: those whose numbers are finite, whose instants are regular and whose
lengths have 64 bits, if they do not nest too deep and their numbers are read as they were. What is read of any
bytes is such a value, up to the reading of its numbers.
-/

namespace GuardedGraph

namespace Value

/-! ### Streams -/

@[simp] theorem Source.toJson_detached (s : Source) : s.detached.toJson = s.toJson := by cases s <;> rfl

@[simp] theorem Source.measured_detached {s : Source} : s.detached.Measured ↔ s.Measured := by cases s <;> rfl

@[simp] theorem Stream.toJson_detached (s : Stream) : s.detached.toJson = s.toJson := by
  rw [Stream.toJson, Stream.toJson, detached, Source.toJson_detached]

@[simp] theorem bytes_beq_self (b : ByteArray) : (b == b) = true := beq_self_eq_true b.data

theorem Stream.same_detached (s : Stream) : s.detached.same s = true := by
  obtain ⟨kind, source⟩ := s
  cases source <;> simp [same, detached, Source.detached]

theorem Source.ofJson?_ok {place : Json.Place} {limit : Nat} {j : Json} {s : Source}
    (h : Source.ofJson? place limit j = some s) : s.toJson.depth ≤ limit ∧ s.Measured ∧ s.detached = s := by
  obtain ⟨⟨name, fields⟩, embedded, h⟩ := Option.bind_eq_some_iff.mp h
  have pos := Json.embedded?_pos embedded
  dsimp only at h
  split at h
  · obtain ⟨parts, -, h⟩ := Option.bind_eq_some_iff.mp h
    split at h
    · obtain ⟨content, data, h⟩ := Option.bind_eq_some_iff.mp h
      obtain rfl := Option.some.inj h
      refine ⟨?_, trivial, rfl⟩
      simp only [Source.toJson, Json.depth_record, List.forall_mem_cons, Json.depth_string, Json.depth_bytes]
      exact ⟨pos, Nat.zero_le _, Json.bytes?_pos data, List.forall_mem_nil _⟩
    · exact absurd h (by simp)
  split at h
  · obtain ⟨parts, -, h⟩ := Option.bind_eq_some_iff.mp h
    split at h
    · obtain ⟨key, -, h⟩ := Option.bind_eq_some_iff.mp h
      obtain ⟨length, measured, h⟩ := Option.bind_eq_some_iff.mp h
      obtain rfl := Option.some.inj h
      exact ⟨by simpa [Source.toJson] using pos, Json.word?_lt measured, rfl⟩
    · exact absurd h (by simp)
  · exact absurd h (by simp)

theorem Stream.ofJson?_ok {place : Json.Place} {limit : Nat} {j : Json} {s : Stream}
    (h : Stream.ofJson? place limit j = some s) :
    s.toJson.depth ≤ limit ∧ s.source.Measured ∧ s.detached = s := by
  obtain ⟨fields, read, h⟩ := Option.bind_eq_some_iff.mp h
  split at h
  · obtain ⟨kind, -, h⟩ := Option.bind_eq_some_iff.mp h
    obtain ⟨source, part, h⟩ := Option.bind_eq_some_iff.mp h
    obtain rfl := Option.some.inj h
    obtain ⟨deep, measured, same⟩ := Source.ofJson?_ok part
    refine ⟨?_, measured, congrArg (Stream.mk kind) same⟩
    simp only [Stream.toJson, Json.depth_record, List.forall_mem_cons, Json.depth_string]
    exact ⟨Json.fields?_pos read, Nat.zero_le _, deep, List.forall_mem_nil _⟩
  · exact absurd h (by simp)

theorem Source.sound_toJson {s : Source} (measured : s.Measured) {limit : Nat} (deep : s.toJson.depth ≤ limit) :
    s.toJson.sound limit = true := by
  cases s with
  | inline content =>
    simp only [toJson, Json.depth_record, List.forall_mem_cons, Json.depth_bytes] at deep
    obtain ⟨n, more⟩ := Nat.exists_eq_add_of_lt deep.2.2.1
    rw [toJson, Json.sound_record]
    simp [deep.1, more, Json.sound_bytes]
  | external key length attached =>
    simp only [toJson, Json.depth_record] at deep
    rw [toJson, Json.sound_record]
    simp [deep.1, Json.sound_int measured]

theorem Source.ofJson?_toJson {limit : Nat} {s : Source} :
    Source.ofJson? .inText limit s.toJson = some s.detached ↔ s.Measured ∧ s.toJson.depth ≤ limit := by
  constructor
  · intro h
    obtain ⟨deep, measured, -⟩ := Source.ofJson?_ok h
    exact ⟨Source.measured_detached.mp measured, s.toJson_detached ▸ deep⟩
  · rintro ⟨measured, deep⟩
    rw [ofJson?_source s (Source.sound_toJson measured deep)]
    cases s with
    | inline content =>
      simp only [toJson, Json.depth_record, List.forall_mem_cons, Json.depth_bytes] at deep
      exact if_neg (by omega)
    | external key length attached =>
      simp only [toJson, Json.depth_record] at deep
      exact if_neg fun h => h.elim (Nat.ne_of_gt deep.1) (Nat.not_le.mpr measured)

theorem Stream.ofJson?_toJson {limit : Nat} {s : Stream} :
    Stream.ofJson? .inText limit s.toJson = some s.detached ↔ s.source.Measured ∧ s.toJson.depth ≤ limit := by
  constructor
  · intro h
    obtain ⟨deep, measured, -⟩ := Stream.ofJson?_ok h
    exact ⟨Source.measured_detached.mp measured, s.toJson_detached ▸ deep⟩
  · rintro ⟨measured, deep⟩
    simp only [toJson, Json.depth_record, List.forall_mem_cons] at deep
    obtain ⟨pos, -, deep, -⟩ := deep
    cases limit with
    | zero => exact absurd pos (Nat.lt_irrefl 0)
    | succ limit =>
      have source : Source.ofJson? .inText limit s.source.toJson = some s.source.detached :=
        Source.ofJson?_toJson.mpr ⟨measured, deep⟩
      rw [ofJson?_stream, source]
      rfl

/-! ### Values that JSON can tell -/

mutual

/-- Whether the numbers are finite, the instants regular, and the lengths of 64 bits. -/
def Storable : Value → Prop
  | .float d => d.isFinite = true
  | .geo s => s.isFinite = true
  | .dateTime t => t.Regular
  | .stream s => s.source.Measured
  | .list items => AreStorable items
  | _ => True

def AreStorable : List Value → Prop
  | [] => True
  | v :: vs => v.Storable ∧ AreStorable vs

end

/-- A value that JSON can tell where at most so many arrays and objects nest. -/
structure Fits (limit : Nat) (v : Value) : Prop where
  storable : v.Storable
  nests : v.toJson.depth ≤ limit

mutual

/-- The floating-point numbers in the value. -/
def numbers : Value → List Double
  | .float d => [d]
  | .geo s => s.numbers
  | .list items => numbersOf items
  | _ => []

def numbersOf : List Value → List Double
  | [] => []
  | v :: vs => v.numbers ++ numbersOf vs

end

mutual

/-- The value with its streams as they come from a stored form, not attached to the store. -/
def detached : Value → Value
  | .stream s => .stream s.detached
  | .list items => .list (detachedOf items)
  | v => v

def detachedOf : List Value → List Value
  | [] => []
  | v :: vs => v.detached :: detachedOf vs

end

@[simp] theorem depth_tagged {name : String} {content : Json} {n : Nat} :
    (tagged name content).depth ≤ n ↔ 0 < n ∧ content.depth ≤ n - 1 := by
  simp [tagged]

theorem depth_toJson_pos (v : Value) : 0 < v.toJson.depth := by
  cases v <;> simp [toJson, tagged, Json.record, Json.depth]

mutual

/-- Equality does not look at where a stream can be read. -/
theorem same_detached (v : Value) (storable : v.Storable) : v.detached.same v = true := by
  cases v with
  | list items => exact sameItems_detached items storable
  | float d => exact Double.numEq_self storable
  | geo s => exact Geo.Shape.same_self storable
  | stream s => exact s.same_detached
  | _ => simp [detached, same]

theorem sameItems_detached (vs : List Value) (storable : AreStorable vs) : sameItems (detachedOf vs) vs = true := by
  cases vs with
  | nil => rfl
  | cons v vs =>
    rw [detachedOf, sameItems, same_detached v storable.1, sameItems_detached vs storable.2]
    rfl

end

/-! ### What is read of a value -/

mutual

theorem ofJson?_toJson_detached (limit : Nat) (v : Value) :
    ofJson? limit .inText v.toJson = some v.detached ↔
      v.Storable ∧ v.toJson.depth ≤ limit ∧ ∀ d ∈ v.numbers, d.ReadsBack := by
  cases limit with
  | zero => exact ⟨fun h => absurd h (by simp [ofJson?]), fun h => absurd h.2.1 (Nat.not_le.mpr v.depth_toJson_pos)⟩
  | succ limit =>
    cases v with
    | null =>
      rw [ofJson?_null]
      simp [toJson, detached, Storable, numbers]
    | bool b =>
      rw [toJson, ofJson?_tagged]
      simp [ofCase?, detached, Storable, numbers, Json.bool?, Json.depth]
    | int i =>
      have range : Int64.minValue.toInt ≤ i.toInt ∧ i.toInt ≤ Int64.maxValue.toInt :=
        ⟨i.minValue_le_toInt, i.toInt_le⟩
      rw [toJson, ofJson?_tagged]
      simp only [ofCase?, String.reduceEq, if_false, if_true, Option.bind_some, Json.integer?_int, range]
      simp [detached, Storable, numbers]
    | float d =>
      have finite : d.ReadsBack → d.isFinite = true := Double.ReadsBack.isFinite
      rw [toJson, ofJson?_tagged]
      simpa [ofCase?, detached, Storable, numbers, Double.ReadsBack] using finite
    | string s =>
      rw [toJson, ofJson?_tagged]
      simp [ofCase?, detached, Storable, numbers, Json.string, Json.text?, Json.depth]
    | bytes b =>
      rw [toJson, ofJson?_tagged]
      simp [ofCase?, detached, Storable, numbers, Json.bytes?_bytes, Nat.one_le_iff_ne_zero]
    | date d =>
      rw [toJson, ofJson?_tagged]
      simp [ofCase?, detached, Storable, numbers, Json.string, Json.text?, Json.depth, Date.ofText?_render]
    | dateTime t =>
      have regular : Instant.ofText? t.stored = some t ↔ t.Regular :=
        ⟨Instant.regular_of_ofText?, Instant.ofText?_stored⟩
      rw [toJson, ofJson?_tagged]
      simp [ofCase?, detached, Storable, numbers, Json.string, Json.text?, Json.depth, regular]
    | geo s =>
      have finite : (∀ d ∈ s.numbers, d.ReadsBack) → s.isFinite = true := Geo.Shape.isFinite_of_readsBack
      rw [toJson, ofJson?_tagged]
      simpa [ofCase?, detached, Storable, numbers, Geo.Shape.ofJson?_toJson] using fun _ => finite
    | stream s =>
      rw [toJson, ofJson?_tagged, ofCase?_stream]
      simp [detached, Storable, numbers, Stream.ofJson?_toJson]
    | list items =>
      -- A list nests twice before its items do: in the object of its case and in the array.
      rw [toJson, ofJson?_tagged, ofCase?_list]
      cases limit with
      | zero => simp [detached, Storable, numbers, Json.depth]
      | succ limit =>
        have each := mapM_detached limit items
        simp [detached, Storable, numbers, Json.depth, item?, each]

theorem mapM_detached (limit : Nat) (vs : List Value) :
    (itemsToJson vs).mapM (ofJson? limit .inText) = some (detachedOf vs) ↔
      AreStorable vs ∧ Json.itemsDepth (itemsToJson vs) ≤ limit ∧ ∀ d ∈ numbersOf vs, d.ReadsBack := by
  cases vs with
  | nil => simp [itemsToJson, AreStorable, Json.itemsDepth, numbersOf, detachedOf]
  | cons v vs =>
    have here := ofJson?_toJson_detached limit v
    have later := mapM_detached limit vs
    have both : (itemsToJson (v :: vs)).mapM (ofJson? limit .inText) = some (detachedOf (v :: vs)) ↔
        ofJson? limit .inText v.toJson = some v.detached ∧
          (itemsToJson vs).mapM (ofJson? limit .inText) = some (detachedOf vs) := by
      simp [itemsToJson, detachedOf, Option.bind_eq_some_iff]
    rw [both, here, later, AreStorable, itemsToJson, Json.itemsDepth, Nat.max_le, numbersOf, List.forall_mem_append,
      and_and_and_comm, and_and_and_comm (a := v.toJson.depth ≤ limit)]

end

/-- Exactly the values that JSON can tell, and whose numbers it does, come back. -/
theorem decode_encode_detached {v : Value} :
    decode v.encode = .ok v.detached ↔ v.Fits Json.nesting ∧ ∀ d ∈ v.numbers, d.ReadsBack := by
  have read : decode v.encode = .ok v.detached ↔ ofJson? Json.nesting .inText v.toJson = some v.detached := by
    rw [decode_encode]
    cases ofJson? Json.nesting .inText v.toJson <;> simp
  rw [read, ofJson?_toJson_detached]
  exact ⟨fun ⟨storable, nests, back⟩ => ⟨⟨storable, nests⟩, back⟩,
    fun ⟨⟨storable, nests⟩, back⟩ => ⟨storable, nests, back⟩⟩

/-! ### What is read of any bytes -/

/-- A value as it is read where at most so many arrays and objects may nest. -/
structure Told (limit : Nat) (v : Value) : Prop extends v.Fits limit where
  detached : v.detached = v

theorem told_items {limit : Nat} {read : Json → Option Value} {js : List Json} {items : List Value}
    (each : ∀ j v, read j = some v → v.Told limit) (h : js.mapM read = some items) : ∀ v ∈ items, v.Told limit := by
  induction js generalizing items with
  | nil =>
    obtain rfl := Option.some.inj h
    exact List.forall_mem_nil _
  | cons j js ih =>
    rw [List.mapM_cons] at h
    obtain ⟨v, here, h⟩ := Option.bind_eq_some_iff.mp h
    obtain ⟨vs, later, h⟩ := Option.bind_eq_some_iff.mp h
    obtain rfl := Option.some.inj h
    exact List.forall_mem_cons.mpr ⟨each j v here, ih later⟩

theorem told_list {limit : Nat} {items : List Value} (each : ∀ v ∈ items, v.Told limit) :
    (list items).Told (limit + 2) := by
  have all : AreStorable items ∧ Json.itemsDepth (itemsToJson items) ≤ limit ∧ detachedOf items = items := by
    induction items with
    | nil => exact ⟨trivial, Nat.zero_le _, rfl⟩
    | cons v vs ih =>
      obtain ⟨here, later⟩ := List.forall_mem_cons.mp each
      obtain ⟨storable, nests, detached⟩ := ih later
      refine ⟨⟨here.storable, storable⟩, ?_, ?_⟩
      · rw [itemsToJson, Json.itemsDepth]
        exact Nat.max_le.mpr ⟨here.nests, nests⟩
      · rw [detachedOf, here.detached, detached]
  obtain ⟨storable, nests, detached⟩ := all
  refine ⟨⟨storable, ?_⟩, ?_⟩
  · simpa [toJson, Json.depth] using nests
  · rw [Value.detached, detached]

theorem told_ofCase? {limit : Nat} {read : Json.Place → Json → Option Value} {c : Json.Case} {v : Value}
    (each : ∀ place j w, read place j = some w → 0 < limit → w.Told (limit - 1))
    (h : ofCase? limit read c = some v) : v.Told (limit + 1) := by
  have plain {w : Value} (storable : w.Storable) (nests : w.toJson.depth ≤ 1) (detached : w.detached = w) :
      w.Told (limit + 1) := ⟨⟨storable, Nat.le_trans nests (Nat.le_add_left 1 limit)⟩, detached⟩
  cases reads_of_ofCase? h with
  | null => exact plain trivial (by simp [toJson]) rfl
  | bool => exact plain trivial (by simp [toJson, Json.depth]) rfl
  | int => exact plain trivial (by simp [toJson]) rfl
  | float _ _ number => exact plain (Json.isFinite_double? number) (by simp [toJson]) rfl
  | string => exact plain trivial (by simp [toJson]) rfl
  | bytes _ _ bytes =>
    exact ⟨⟨trivial, by simpa [toJson] using Nat.succ_le_of_lt (Json.bytes?_pos bytes)⟩, rfl⟩
  | list _ _ array items =>
    have pos : 0 < limit := Json.array?_pos array
    have told := told_list (told_items (fun j w read => each c.place j w read pos) items)
    rwa [show limit - 1 + 2 = limit + 1 by omega] at told
  | date => exact plain trivial (by simp [toJson]) rfl
  | dateTime _ _ _ instant => exact plain (Instant.regular_of_ofText? instant) (by simp [toJson]) rfl
  | geo _ _ shape =>
    obtain ⟨nests, finite⟩ := Geo.Shape.ofJson?_ok shape
    exact ⟨⟨finite, by simpa [toJson] using nests⟩, rfl⟩
  | stream _ _ stream =>
    obtain ⟨nests, measured, detached⟩ := Stream.ofJson?_ok stream
    exact ⟨⟨measured, by simpa [toJson] using nests⟩, congrArg Value.stream detached⟩

/-- By two levels at a time, as lists are read. -/
theorem told_ofJson? : ∀ {limit : Nat} {place : Json.Place} {j : Json} {v : Value},
    ofJson? limit place j = some v → v.Told limit
  | 0, _, _, _, h => absurd h (by simp [ofJson?])
  | 1, _, _, _, h => by
    obtain ⟨c, -, h⟩ := Option.bind_eq_some_iff.mp h
    exact told_ofCase? (fun _ _ _ read _ => absurd read (by simp)) h
  | limit + 2, _, _, _, h => by
    obtain ⟨c, -, h⟩ := Option.bind_eq_some_iff.mp h
    exact told_ofCase? (fun _ _ _ item _ => told_ofJson? item) h

theorem told_decode {b : ByteArray} {v : Value} (h : decode b = .ok v) : v.Told Json.nesting := by
  unfold decode at h
  split at h
  · rename_i read
    obtain ⟨j, -, read⟩ := Option.bind_eq_some_iff.mp read
    obtain rfl := Except.ok.inj h
    exact told_ofJson? read
  · exact absurd h (by simp)

end Value

/-! ### Stored values -/

/-- A value comes back of its stored form, and equal to what it was, iff JSON can tell it and its numbers are read as
they were. What is read of any bytes is a value that JSON can tell, and is not attached to a store. -/
theorem stored_values_round_trip (v : Value) :
    (Value.decode v.encode = .ok v.detached ↔ v.Fits Json.nesting ∧ ∀ d ∈ v.numbers, d.ReadsBack) ∧
    (v.Fits Json.nesting → v.detached.same v = true) ∧
    ∀ b, Value.decode b = .ok v → v.Fits Json.nesting ∧ v.detached = v ∧
      (Value.decode v.encode = .ok v ↔ ∀ d ∈ v.numbers, d.ReadsBack) := by
  refine ⟨Value.decode_encode_detached, fun fits => v.same_detached fits.storable, fun b h => ?_⟩
  have told := Value.told_decode h
  have back := Value.decode_encode_detached (v := v)
  rw [told.detached, and_iff_right told.toFits] at back
  exact ⟨told.toFits, told.detached, back⟩

/-- The second that was added at the end of 2016. -/
def leapSecond : Instant := ⟨⟨2016, 12, 31, by decide⟩, 86399, 1000000000, by decide, by decide⟩

/-- Some of each case, among them a leap second, a year before the first, numbers of both signs, an attached stream and
lists in lists. -/
def sampler : Value :=
  .list [.null, .bool true, .int Int64.minValue, .float { Double.zero with negative := true },
    .float ⟨false, 0x3fb999999999999a, by decide⟩,
    .string "a \"quoted\" word", .bytes ⟨#[0, 255]⟩, .date ⟨-44, 3, 15, by decide⟩,
    .list [.dateTime leapSecond, .list []],
    .geo (.circle ⟨⟨false, 0x4043000000000000, by decide⟩, ⟨true, 0x4053000000000000, by decide⟩⟩
      ⟨false, 0x4000000000000000, by decide⟩),
    .stream ⟨.bytes, .external "key" 7 true⟩]

theorem stored_values_round_trip_sampler :
    Value.decode sampler.encode = .ok sampler.detached ∧ sampler.detached.same sampler = true ∧
      sampler.detached.Fits Json.nesting := by
  have fits : sampler.Fits Json.nesting := by
    refine ⟨?_, by decide +kernel⟩
    simp [sampler, leapSecond, Value.Storable, Value.AreStorable, Instant.Regular, Value.Source.Measured,
      Geo.Shape.isFinite, Geo.Point.isFinite, Double.isFinite, Double.infinity, Double.zero]
  have back : ∀ d ∈ sampler.numbers, d.ReadsBack := by decide +kernel
  obtain ⟨exact, same, -⟩ := stored_values_round_trip sampler
  have stored := exact.mpr ⟨fits, back⟩
  exact ⟨stored, same fits, ((stored_values_round_trip sampler.detached).2.2 _ stored).1⟩

/-- Text gives leap seconds, which are told as more than a thousand million nanoseconds. -/
theorem decode_leapSecond :
    Value.decode "\x7b\"type\":\"DateTime\",\"value\":\"2016-12-31T23:59:60Z\"\x7d".toUTF8 =
      .ok (.dateTime leapSecond) ∧ ¬leapSecond.nano < 1000000000 := by
  have stored : (Value.dateTime leapSecond).encode =
      "\x7b\"type\":\"DateTime\",\"value\":\"2016-12-31T23:59:60Z\"\x7d".toUTF8 := by decide +kernel
  have fits : (Value.dateTime leapSecond).Fits Json.nesting := ⟨.inr (by decide), by decide +kernel⟩
  rw [← stored]
  exact ⟨Value.decode_encode_detached.mpr ⟨fits, List.forall_mem_nil _⟩, by decide⟩

end GuardedGraph
