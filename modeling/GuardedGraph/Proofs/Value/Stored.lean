import Mathlib.Logic.Basic
import GuardedGraph.Proofs.Json.Reading
import GuardedGraph.Proofs.Number.Finite
import GuardedGraph.Value.Stored

/-! What comes back of a value from its stored form: every stream as it was, but detached from the store. -/

namespace GuardedGraph

/-! ### Written trees -/

namespace Json

theorem written_items {js : List Json} : WrittenItems js ↔ ∀ j ∈ js, j.Written := by
  induction js with
  | nil => simp [WrittenItems]
  | cons j js ih => simp [WrittenItems, ih]

theorem written_members {ms : List (Option String × Json)} :
    WrittenMembers ms ↔ ∀ m ∈ ms, m.1.isSome ∧ m.2.Written := by
  induction ms with
  | nil => simp [WrittenMembers]
  | cons m ms ih =>
    obtain ⟨k, j⟩ := m
    simp [WrittenMembers, ih, and_assoc]

@[simp] theorem written_array {js : List Json} : (Json.array js).Written ↔ ∀ j ∈ js, j.Written := by
  rw [Written, written_items]

@[simp] theorem written_record {ms : List (String × Json)} : (Json.record ms).Written ↔ ∀ m ∈ ms, m.2.Written := by
  rw [record, Written, written_members, List.forall_mem_map]
  simp

@[simp] theorem written_string (s : String) : (Json.string s).Written := by simp [string, Written]

@[simp] theorem written_int (i : Int) : (Json.int i).Written := by
  rw [int, Written]
  exact written_ofInt i

@[simp] theorem written_bool (b : Bool) : (Json.bool b).Written := by simp [Written]

@[simp] theorem written_double (d : Double) : (Json.double d).Written := by
  unfold double
  split
  · rw [Written]
    exact written_ofDouble d
  · simp [Written]

@[simp] theorem written_bytes (b : ByteArray) : (Json.bytes b).Written := by simp [bytes]

/-! ### Reading back -/

theorem integer?_int (i : Int) (low high : Int) :
    (int i).integer? low high = if low ≤ i ∧ i ≤ high then some i else none := by
  show (Number.ofInt i).integer?.filter _ = _
  rw [Number.integer?_ofInt]
  simp [Option.filter]

theorem word?_int (n : Nat) : (int n).word? = if n < 0x10000000000000000 then some n else none := by
  rw [word?, integer?_int]
  by_cases small : n < 0x10000000000000000
  · rw [if_pos (by omega), if_pos small]
    rfl
  · rw [if_neg (by omega), if_neg small]
    rfl

theorem bytes?_bytes (limit : Nat) (b : ByteArray) :
    (bytes b).bytes? limit = if limit = 0 then none else some b := by
  have byte (x : UInt8) : (int x.toNat).byte? = some x := by
    have small := x.toNat_lt
    rw [byte?, integer?_int, if_pos (by omega)]
    simp
  have all (bs : List UInt8) : (bs.map fun x => int x.toNat).mapM byte? = some bs := by
    induction bs with
    | nil => rfl
    | cons x bs ih => simp [byte, ih]
  rw [bytes, bytes?, array?]
  split
  · rfl
  · rw [Option.bind_some, all]
    rfl

theorem sound_int {n : Nat} (small : n < 0x10000000000000000) (limit : Nat) : (int n).sound limit = true := by
  rw [int, sound]
  exact Number.double?_ofInt small

theorem sound_bytes (limit : Nat) (b : ByteArray) : (bytes b).sound (limit + 1) = true := by
  have all (bs : List UInt8) : soundItems limit (bs.map fun x => int x.toNat) = true := by
    induction bs with
    | nil => simp [soundItems]
    | cons x bs ih =>
      have small := x.toNat_lt
      simp [soundItems, ih, sound_int (n := x.toNat) (by omega)]
  rw [bytes, sound]
  exact all _

theorem named_absent {name : String} {fields : List (String × Json)} (absent : ∀ f ∈ fields, f.1 ≠ name) :
    named name (fields.map fun m => (some m.1, m.2)) = [] := by
  rw [named, List.map_eq_nil_iff, List.filter_eq_nil_iff, List.forall_mem_map]
  exact fun f mem => by simpa using absent f mem

theorem named_cons (f : String × Json) (fields : List (String × Json)) (name : String) :
    named name ((f :: fields).map fun m => (some m.1, m.2)) =
      if f.1 = name then f.2 :: named name (fields.map fun m => (some m.1, m.2))
      else named name (fields.map fun m => (some m.1, m.2)) := by
  unfold named
  rw [List.map_cons, List.filter_cons]
  by_cases same : f.1 = name <;> simp [same]

theorem named_record {fields : List (String × Json)} (distinct : (fields.map (·.1)).Nodup) {f : String × Json}
    (mem : f ∈ fields) : named f.1 (fields.map fun m => (some m.1, m.2)) = [f.2] := by
  induction fields with
  | nil => simp at mem
  | cons g gs ih =>
    obtain ⟨fresh, distinct⟩ := List.nodup_cons.mp distinct
    rw [named_cons]
    rcases List.mem_cons.mp mem with rfl | mem
    · have absent : ∀ g ∈ gs, g.1 ≠ f.1 := fun g hg same => fresh (List.mem_map.mpr ⟨g, hg, same⟩)
      rw [if_pos rfl, named_absent absent]
    · rw [if_neg fun same => fresh (List.mem_map.mpr ⟨f, mem, same.symm⟩), ih distinct mem]

theorem fields?_record (limit : Nat) (fields : List (String × Json)) (distinct : (fields.map (·.1)).Nodup) :
    (record fields).fields? limit (fields.map (·.1)) =
      if limit = 0 then none else some (fields.map fun f => some f.2) := by
  have all : ∀ fs ⊆ fields, (fs.map (·.1)).mapM (field? · (fields.map fun m => (some m.1, m.2))) =
      some (fs.map fun f => some f.2) := by
    intro fs sub
    induction fs with
    | nil => rfl
    | cons f fs ih =>
      have ⟨here, later⟩ := List.cons_subset.mp sub
      rw [List.map_cons, List.mapM_cons, field?, named_record distinct here, ih later]
      rfl
  rw [record, fields?]
  by_cases zero : limit = 0
  · rw [if_neg fun h => h.1 zero, if_pos zero]
  · rw [if_pos ⟨zero, by simp⟩, if_neg zero, all fields (List.Subset.refl _)]

theorem embedded?_record {limit : Nat} {tag name : String} {names : List String} {fields : List (String × Json)}
    (other : ∀ f ∈ fields, f.1 ≠ tag) :
    (record ((tag, string name) :: fields)).embedded? .inText limit tag names =
      if (record ((tag, string name) :: fields)).sound limit then some (name, record fields) else none := by
  have found :
      field? tag (((tag, string name) :: fields).map fun m => (some m.1, m.2)) = some (some (string name)) := by
    rw [field?, named_cons, if_pos rfl, named_absent other]
  have others : (((tag, string name) :: fields).map fun m => (some m.1, m.2)).filter (·.1 != some tag) =
      fields.map fun m => (some m.1, m.2) := by
    rw [List.map_cons, List.filter_cons, if_neg (by simp), List.filter_eq_self, List.forall_mem_map]
    exact fun f mem => by simpa using other f mem
  unfold embedded?
  split
  · show ((field? tag _).bind fun j => (j.bind (name? .inText names)).bind fun name => some (name, object _)) = _
    rw [found, others]
    rfl
  · rfl

end Json

namespace Value

mutual

theorem written_toJson (v : Value) : v.toJson.Written := by
  cases v with
  | null => simp [toJson]
  | bool b => simp [toJson, tagged]
  | int i => simp [toJson, tagged]
  | float d => simp [toJson, tagged]
  | string s => simp [toJson, tagged]
  | bytes b => simp [toJson, tagged]
  | list items => simpa [toJson, tagged] using written_itemsToJson items
  | date d => simp [toJson, tagged]
  | dateTime t => simp [toJson, tagged]
  | geo s => cases s <;> simp [toJson, tagged, Geo.Shape.toJson, Geo.Point.toJson]
  | stream s =>
    obtain ⟨kind, source⟩ := s
    cases source <;> simp [toJson, tagged, Stream.toJson, Source.toJson]

theorem written_itemsToJson (vs : List Value) : ∀ j ∈ itemsToJson vs, j.Written := by
  cases vs with
  | nil => simp [itemsToJson]
  | cons v vs => simpa [itemsToJson] using ⟨written_toJson v, written_itemsToJson vs⟩

end

theorem decode_encode (v : Value) :
    decode v.encode = match ofJson? Json.nesting .inText v.toJson with
      | some w => .ok w
      | none => .error .undecodable := by
  rw [decode, encode, Json.ofByteArray?_toByteArray (written_toJson v)]
  rfl

/-! ### Streams -/

/-- The stream as it is when it comes from a stored form. -/
def Source.detached : Source → Source
  | .inline content => .inline content
  | .external key length _ => .external key length false

def Stream.detached (s : Stream) : Stream := { s with source := s.source.detached }

/-- Whether the length of the source, if it is written at all, can be read. -/
def Source.Measured : Source → Prop
  | .inline _ => True
  | .external _ length _ => length < 0x10000000000000000

theorem sound_source {s : Source} (measured : s.Measured) (limit : Nat) : s.toJson.sound (limit + 2) = true := by
  cases s with
  | inline content =>
    simp [Source.toJson, Json.record, Json.string, Json.sound, Json.soundMembers, Json.sound_bytes]
  | external key length attached =>
    simp [Source.toJson, Json.record, Json.string, Json.sound, Json.soundMembers, Json.sound_int measured]

theorem ofJson?_source {limit : Nat} (s : Source) (sound : s.toJson.sound limit = true) :
    Source.ofJson? .inText limit s.toJson = (match s with
      | .inline content => if limit ≤ 1 then none else some (.inline content)
      | .external key length _ =>
        if limit = 0 ∨ 0x10000000000000000 ≤ length then none else some (.external key length false)) := by
  cases s with
  | inline content =>
    have fields := Json.fields?_record limit [("data", Json.bytes content)] (by simp)
    rw [Source.toJson] at sound
    rw [Source.ofJson?, Source.toJson, Json.embedded?_record (by simp), if_pos sound]
    simp only [List.map_cons, List.map_nil] at fields
    simp only [bind, Option.bind, if_true, fields]
    by_cases small : limit ≤ 1
    · rw [if_pos small]
      rcases Nat.le_one_iff_eq_zero_or_eq_one.mp small with rfl | rfl
      · rfl
      · simp [Json.bytes?_bytes]
    · rw [if_neg small, if_neg (by omega)]
      simp only [Json.bytes?_bytes]
      rw [if_neg (by omega)]
      rfl
  | external key length attached =>
    have fields := Json.fields?_record limit [("key", Json.string key), ("length", Json.int length)] (by simp)
    rw [Source.toJson] at sound
    rw [Source.ofJson?, Source.toJson, Json.embedded?_record (by simp), if_pos sound]
    simp only [List.map_cons, List.map_nil] at fields
    simp only [bind, Option.bind, if_neg (show ¬"External" = "Inline" by decide), if_true, fields]
    by_cases zero : limit = 0
    · rw [if_pos zero, if_pos (.inl zero)]
    · by_cases long : 0x10000000000000000 ≤ length
      · rw [if_neg zero, if_pos (.inr long)]
        simp only [Json.word?_int, if_neg (Nat.not_lt.mpr long)]
        rfl
      · rw [if_neg zero, if_neg (by omega)]
        simp only [Json.word?_int, if_pos (Nat.not_le.mp long)]
        rfl

theorem ofJson?_source_eq {s t : Source} {limit : Nat} (h : Source.ofJson? .inText limit s.toJson = some t) :
    t = s.detached := by
  by_cases sound : s.toJson.sound limit = true
  · rw [ofJson?_source s sound] at h
    cases s with
    | inline content => exact (Option.some.inj (Option.ite_none_left_eq_some.mp h).2).symm
    | external key length attached => exact (Option.some.inj (Option.ite_none_left_eq_some.mp h).2).symm
  · have none : Source.ofJson? .inText limit s.toJson = none := by
      unfold Source.ofJson? Json.embedded?
      rw [if_neg sound]
      rfl
    rw [none] at h
    exact absurd h (by simp)

theorem ofJson?_source_measured {s : Source} (measured : s.Measured) (limit : Nat) :
    Source.ofJson? .inText (limit + 2) s.toJson = some s.detached := by
  rw [ofJson?_source s (sound_source measured limit)]
  cases s with
  | inline content => exact if_neg (by omega)
  | external key length attached => exact if_neg fun h => h.elim (by omega) (Nat.not_le.mpr measured)

theorem ofJson?_kind (k : Kind) (limit : Nat) : Kind.ofJson? .inText limit (.string k.title) = some k :=
  Kind.ofTitle?_title k

theorem ofJson?_stream (s : Stream) (limit : Nat) :
    Stream.ofJson? .inText (limit + 1) s.toJson =
      (Source.ofJson? .inText limit s.source.toJson).map fun source => { s with source } := by
  have fields := Json.fields?_record (limit + 1)
    [("value_type", Json.string s.kind.title), ("source", s.source.toJson)] (by simp)
  simp only [List.map_cons, List.map_nil] at fields
  rw [Stream.ofJson?, Stream.toJson, fields]
  simp only [bind, Option.bind, if_neg (Nat.succ_ne_zero limit), Nat.add_sub_cancel, ofJson?_kind]
  cases Source.ofJson? .inText limit s.source.toJson <;> rfl

theorem ofJson?_stream_eq {s t : Stream} {limit : Nat} (h : Stream.ofJson? .inText limit s.toJson = some t) :
    t = s.detached := by
  cases limit with
  | zero => simp [Stream.ofJson?, Stream.toJson, Json.record, Json.fields?] at h
  | succ limit =>
    rw [ofJson?_stream] at h
    obtain ⟨source, read, rfl⟩ := Option.map_eq_some_iff.mp h
    rw [ofJson?_source_eq read]
    rfl

theorem ofJson?_stream_measured {s : Stream} (measured : s.source.Measured) (limit : Nat) :
    Stream.ofJson? .inText (limit + 3) s.toJson = some s.detached := by
  rw [ofJson?_stream, ofJson?_source_measured measured]
  rfl

/-! ### Values -/

mutual

/-- The streams in a value, also those inside lists. -/
def streams : Value → List Stream
  | .stream s => [s]
  | .list items => streamsOf items
  | _ => []

def streamsOf : List Value → List Stream
  | [] => []
  | v :: vs => v.streams ++ streamsOf vs

end

theorem tagged?_tagged (name : String) (content : Json) (limit : Nat) (names : List String) :
    (tagged name content).tagged? .inText (limit + 1) names = some ⟨name, some content, .inText⟩ := by
  simp [tagged, Json.record, Json.string, Json.tagged?, Json.field?, Json.named, Json.case?]

def item? : Nat → Json.Place → Json → Option Value
  | 0 => fun _ _ => none
  | limit + 1 => ofJson? limit

theorem ofJson?_tagged (name : String) (content : Json) (limit : Nat) :
    ofJson? (limit + 1) .inText (tagged name content) = ofCase? limit (item? limit) ⟨name, some content, .inText⟩ := by
  cases limit <;> rw [ofJson?, tagged?_tagged] <;> rfl

/-- How the content of a case is read as a value. -/
inductive Reads (limit : Nat) (read : Json.Place → Json → Option Value) (c : Json.Case) : Value → Prop
  | null : c.name = "Null" → c.content = none ∨ c.content = some .null → Reads limit read c .null
  | bool {j : Json} {b : Bool} : c.name = "Bool" → c.content = some j → j.bool? = some b →
      Reads limit read c (.bool b)
  | int {j : Json} {i : Int} : c.name = "Int" → c.content = some j →
      j.integer? Int64.minValue.toInt Int64.maxValue.toInt = some i → Reads limit read c (.int (Int64.ofInt i))
  | float {j : Json} {d : Double} : c.name = "Float" → c.content = some j → j.double? = some d →
      Reads limit read c (.float d)
  | string {j : Json} {s : String} : c.name = "String" → c.content = some j → j.text? = some s →
      Reads limit read c (.string s)
  | bytes {j : Json} {b : ByteArray} : c.name = "Bytes" → c.content = some j → j.bytes? limit = some b →
      Reads limit read c (.bytes b)
  | list {j : Json} {js : List Json} {items : List Value} : c.name = "List" → c.content = some j →
      j.array? limit = some js → js.mapM (read c.place) = some items → Reads limit read c (.list items)
  | date {j : Json} {s : String} {d : Date} : c.name = "Date" → c.content = some j → j.text? = some s →
      Date.ofText? s = some d → Reads limit read c (.date d)
  | dateTime {j : Json} {s : String} {t : Instant} : c.name = "DateTime" → c.content = some j → j.text? = some s →
      Instant.ofText? s = some t → Reads limit read c (.dateTime t)
  | geo {j : Json} {s : Geo.Shape} : c.name = "Geo" → c.content = some j →
      Geo.Shape.ofJson? c.place limit j = some s → Reads limit read c (.geo s)
  | stream {j : Json} {s : Stream} : c.name = "Stream" → c.content = some j →
      Stream.ofJson? c.place limit j = some s → Reads limit read c (.stream s)

theorem reads_of_ofCase? {limit : Nat} {read : Json.Place → Json → Option Value} {c : Json.Case} {w : Value}
    (h : ofCase? limit read c = some w) : Reads limit read c w := by
  unfold ofCase? at h
  dsimp only at h
  rcases ite_eq_iff.mp h with ⟨name, h⟩ | ⟨-, h⟩
  · split at h
    · rename_i content
      exact Option.some.inj h ▸ .null name (.inl content)
    · rename_i content
      exact Option.some.inj h ▸ .null name (.inr content)
    · exact absurd h (by simp)
  obtain ⟨j, content, h⟩ := Option.bind_eq_some_iff.mp h
  rcases ite_eq_iff.mp h with ⟨name, h⟩ | ⟨-, h⟩
  · obtain ⟨b, bool, rfl⟩ := Option.map_eq_some_iff.mp h
    exact .bool name content bool
  rcases ite_eq_iff.mp h with ⟨name, h⟩ | ⟨-, h⟩
  · obtain ⟨i, integer, rfl⟩ := Option.map_eq_some_iff.mp h
    exact .int name content integer
  rcases ite_eq_iff.mp h with ⟨name, h⟩ | ⟨-, h⟩
  · obtain ⟨d, number, rfl⟩ := Option.map_eq_some_iff.mp h
    exact .float name content number
  rcases ite_eq_iff.mp h with ⟨name, h⟩ | ⟨-, h⟩
  · obtain ⟨s, text, rfl⟩ := Option.map_eq_some_iff.mp h
    exact .string name content text
  rcases ite_eq_iff.mp h with ⟨name, h⟩ | ⟨-, h⟩
  · obtain ⟨b, bytes, rfl⟩ := Option.map_eq_some_iff.mp h
    exact .bytes name content bytes
  rcases ite_eq_iff.mp h with ⟨name, h⟩ | ⟨-, h⟩
  · obtain ⟨js, array, h⟩ := Option.bind_eq_some_iff.mp h
    obtain ⟨items, each, rfl⟩ := Option.map_eq_some_iff.mp h
    exact .list name content array each
  rcases ite_eq_iff.mp h with ⟨name, h⟩ | ⟨-, h⟩
  · obtain ⟨d, date, rfl⟩ := Option.map_eq_some_iff.mp h
    obtain ⟨s, text, date⟩ := Option.bind_eq_some_iff.mp date
    exact .date name content text date
  rcases ite_eq_iff.mp h with ⟨name, h⟩ | ⟨-, h⟩
  · obtain ⟨t, instant, rfl⟩ := Option.map_eq_some_iff.mp h
    obtain ⟨s, text, instant⟩ := Option.bind_eq_some_iff.mp instant
    exact .dateTime name content text instant
  rcases ite_eq_iff.mp h with ⟨name, h⟩ | ⟨-, h⟩
  · obtain ⟨s, shape, rfl⟩ := Option.map_eq_some_iff.mp h
    exact .geo name content shape
  rcases ite_eq_iff.mp h with ⟨name, h⟩ | ⟨-, h⟩
  · obtain ⟨s, stream, rfl⟩ := Option.map_eq_some_iff.mp h
    exact .stream name content stream
  exact absurd h (by simp)

theorem streams_ofCase? {limit : Nat} {read : Json.Place → Json → Option Value} {c : Json.Case} {w : Value}
    (h : ofCase? limit read c = some w) (list : c.name ≠ "List") (stream : c.name ≠ "Stream") :
    w.streams = [] ∧ w.stream? = none := by
  cases reads_of_ofCase? h with
  | list name => exact absurd name list
  | stream name => exact absurd name stream
  | _ => simp [streams, stream?]

theorem ofCase?_list (limit : Nat) (read : Json.Place → Json → Option Value) (js : List Json) :
    ofCase? limit read ⟨"List", some (.array js), .inText⟩ =
      if limit = 0 then none else (js.mapM (read .inText)).map .list := by
  cases limit <;> simp [ofCase?, Json.array?]

theorem ofCase?_stream (limit : Nat) (read : Json.Place → Json → Option Value) (j : Json) :
    ofCase? limit read ⟨"Stream", some j, .inText⟩ = (Stream.ofJson? .inText limit j).map .stream := by
  simp [ofCase?]

theorem ofJson?_null (limit : Nat) : ofJson? (limit + 1) .inText null.toJson = some null := by
  have case : null.toJson.tagged? .inText (limit + 1) cases = some ⟨"Null", none, .inText⟩ := by
    simp [toJson, Json.record, Json.string, Json.tagged?, Json.field?, Json.named, Json.case?]
  cases limit <;> rw [ofJson?, case] <;> rfl

mutual

/-- What is read of a value has its streams, as they come from a stored form. -/
theorem ofJson?_toJson {w : Value} {limit : Nat} (v : Value) (h : ofJson? limit .inText v.toJson = some w) :
    w.streams = v.streams.map Stream.detached ∧ w.stream? = v.stream?.map Stream.detached := by
  cases limit with
  | zero => simp [ofJson?] at h
  | succ limit =>
    cases v with
    | null =>
      rw [ofJson?_null] at h
      obtain rfl := Option.some.inj h
      exact ⟨rfl, rfl⟩
    | list items =>
      rw [toJson, ofJson?_tagged, ofCase?_list] at h
      split at h
      · exact absurd h (by simp)
      · obtain ⟨ws, read, rfl⟩ := Option.map_eq_some_iff.mp h
        exact ⟨mapM_itemsToJson items read, rfl⟩
    | stream s =>
      rw [toJson, ofJson?_tagged, ofCase?_stream] at h
      obtain ⟨t, read, rfl⟩ := Option.map_eq_some_iff.mp h
      obtain rfl := ofJson?_stream_eq read
      exact ⟨rfl, rfl⟩
    | _ =>
      rw [toJson, ofJson?_tagged] at h
      exact streams_ofCase? h (by simp) (by simp)

theorem mapM_itemsToJson {ws : List Value} {limit : Nat} (vs : List Value)
    (h : (itemsToJson vs).mapM (item? limit .inText) = some ws) :
    streamsOf ws = (streamsOf vs).map Stream.detached := by
  cases vs with
  | nil =>
    obtain rfl := Option.some.inj h
    rfl
  | cons v vs =>
    rw [itemsToJson, List.mapM_cons] at h
    obtain ⟨w, first, h⟩ := Option.bind_eq_some_iff.mp h
    obtain ⟨ws', rest, h⟩ := Option.bind_eq_some_iff.mp h
    obtain rfl := Option.some.inj h
    have later := mapM_itemsToJson vs rest
    cases limit with
    | zero => exact absurd first (by simp [item?])
    | succ limit =>
      have here := (ofJson?_toJson v first).1
      simp only [streamsOf, List.map_append, here, later]

end

/-! ### Stored forms -/

theorem decode_encode_eq {v w : Value} (h : decode v.encode = .ok w) :
    w.streams = v.streams.map Stream.detached ∧ w.stream? = v.stream?.map Stream.detached := by
  rw [decode_encode] at h
  split at h
  · rename_i read
    obtain rfl := Except.ok.inj h
    exact ofJson?_toJson v read
  · exact absurd h (by simp)

/-! ### Texts -/

theorem text?_ofCase? {limit : Nat} {read : Json.Place → Json → Option Value} {c : Json.Case} {w : Value}
    (h : ofCase? limit read c = some w) (other : c.name ≠ "String") : w.text? = none := by
  cases reads_of_ofCase? h with
  | string name => exact absurd name other
  | _ => rfl

theorem ofJson?_string (s : String) (limit : Nat) :
    ofJson? (limit + 1) .inText (string s).toJson = some (string s) := by
  rw [toJson, ofJson?_tagged]
  simp [ofCase?, Json.string, Json.text?]

/-- What is read of a value is the same text, if the value is one, and otherwise is none. -/
theorem text?_ofJson? {v w : Value} (limit : Nat) (h : ofJson? (limit + 1) .inText v.toJson = some w) :
    w.text? = v.text? := by
  cases v with
  | string s =>
    rw [ofJson?_string] at h
    obtain rfl := Option.some.inj h
    rfl
  | null =>
    rw [ofJson?_null] at h
    obtain rfl := Option.some.inj h
    rfl
  | _ =>
    rw [toJson, ofJson?_tagged] at h
    exact text?_ofCase? h (by simp)

/-- Every text is read again from its stored form, and other values are not read as texts. -/
theorem text?_decode_encode (v : Value) : (decode v.encode).toOption.bind text? = v.text? := by
  rw [decode_encode]
  cases read : ofJson? Json.nesting .inText v.toJson with
  | some w => exact text?_ofJson? 126 read
  | none =>
    cases v with
    | string s => exact absurd (read.symm.trans (ofJson?_string s 126)) (by simp)
    | _ => rfl

theorem decode_encode_stream {s : Stream} (measured : s.source.Measured) :
    decode (stream s).encode = .ok (stream s.detached) := by
  have read : ofJson? Json.nesting .inText (stream s).toJson = some (stream s.detached) := by
    show ofJson? 127 .inText _ = _
    rw [toJson, ofJson?_tagged, ofCase?_stream, ofJson?_stream_measured measured]
    rfl
  rw [decode_encode, read]

end Value

end GuardedGraph
