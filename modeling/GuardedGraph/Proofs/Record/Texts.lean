import Mathlib.Data.List.DropRight
import GuardedGraph.Proofs.Json.Encoding
import GuardedGraph.Proofs.Value.Stored
import GuardedGraph.Proofs.Visibility.Exact
import GuardedGraph.Record.Json

/-! Visibilities and records through their texts. A visibility that a text has made is made again by its own text, so
a record whose visibilities have been made so is read again from its JSON (`texts_round_trip`). -/

namespace GuardedGraph

/-! ### Trimming -/

namespace Text

/-- Blanks taken off the end leave none at the beginning, where there was none. -/
theorem trimLeft_trimRight_trimLeft (cs : List Char) :
    trimLeft (trimRight (trimLeft cs)) = trimRight (trimLeft cs) := by
  obtain ⟨bs, split, -⟩ := trimRight_append (trimLeft cs)
  cases trimmed : trimRight (trimLeft cs) with
  | nil => rfl
  | cons c ds =>
    have first := List.head?_dropWhile_not isBlank cs
    rw [show cs.dropWhile isBlank = c :: (ds ++ bs) from split.trans (by rw [trimmed]; rfl)] at first
    exact List.dropWhile_cons_of_neg (by simpa using first)

theorem trim_trim (s : String) : trim (trim s) = trim s := by
  have right (cs : List Char) : trimRight (trimRight cs) = trimRight cs := List.rdropWhile_idempotent isBlank cs
  rw [trim, trim, String.toList_ofList, trimLeft_trimRight_trimLeft, right]

end Text

/-! ### Visibilities -/

namespace Visibility

variable {v w : Visibility}

/-- The visibility is that of a text. -/
def Made (v : Visibility) : Prop := ∃ text, ofText text = .ok v

theorem Made.trim_text (made : v.Made) : Text.trim v.text = v.text := by
  obtain ⟨text, made⟩ := made
  rw [text_of_ofText made, Text.trim_trim]

theorem Made.ofText_text (made : v.Made) : ofText v.text = .ok v := by
  obtain ⟨w, again⟩ := ofText_of_parse v.parsed
  have same : w = v := ext_text ((text_of_ofText again).trans made.trim_text)
  rw [again, same]

theorem compare_eq_iff : compare v w = .eq ↔ v = w := by
  rw [← text_inj, ← Std.compare_eq_iff_eq (a := v.text)]
  rfl

@[simp] theorem written_toJson (v : Visibility) : v.toJson.Written := Json.written_string v.text

@[simp] theorem written_listToJson (vs : List Visibility) : (listToJson vs).Written := by simp [listToJson]

theorem Made.ofJson?_toJson (made : v.Made) : ofJson? v.toJson = some v := by
  show (ofText v.text).toOption = some v
  rw [made.ofText_text]
  rfl

end Visibility

/-! ### Reading back -/

theorem mapM_map_eq_some {α β : Type} {f : β → Option α} {g : α → β} {xs : List α}
    (back : ∀ x ∈ xs, f (g x) = some x) : (xs.map g).mapM f = some xs := by
  induction xs with
  | nil => rfl
  | cons x xs ih =>
    obtain ⟨here, later⟩ := List.forall_mem_cons.mp back
    rw [List.map_cons, List.mapM_cons, here, ih later]
    rfl

namespace Json

theorem fields?_names {limit : Nat} {fields : List (String × Json)} {names : List String}
    (named : fields.map (·.1) = names) (distinct : names.Nodup) :
    (record fields).fields? (limit + 1) names = some (fields.map fun f => some f.2) := by
  subst named
  rw [fields?_record _ _ distinct, if_neg (Nat.succ_ne_zero limit)]

theorem bytes?_succ (limit : Nat) (b : ByteArray) : (bytes b).bytes? (limit + 1) = some b := by
  rw [bytes?_bytes, if_neg (Nat.succ_ne_zero limit)]

theorem records?_array {α : Type} {limit : Nat} {item? : Nat → Json → Option α} {toJson : α → Json} {xs : List α}
    (back : ∀ x ∈ xs, item? limit (toJson x) = some x) :
    records? (limit + 1) item? (some (.array (xs.map toJson))) = some xs :=
  mapM_map_eq_some back

end Json

theorem Visibility.listOfJson?_listToJson {vs : List Visibility} (made : ∀ v ∈ vs, v.Made) (limit : Nat) :
    listOfJson? (limit + 1) (some (listToJson vs)) = some vs :=
  mapM_map_eq_some fun v mem => (made v mem).ofJson?_toJson

theorem ElementType.case?_title (t : ElementType) (limit : Nat) :
    ((Json.string t.title).case? .inText limit).bind ofTitle? = some t := by
  cases t <;> rfl

theorem Direction.case?_title (d : Direction) (limit : Nat) :
    ((Json.string d.title).case? .inText limit).bind ofTitle? = some d := by
  cases d <;> rfl

/-! ### Parts of records -/

@[simp] theorem EntryRecord.written_toJson (e : EntryRecord) : e.toJson.Written := by simp [toJson]

theorem EntryRecord.ofJson?_toJson {e : EntryRecord} (made : e.visibility.Made) (limit : Nat) :
    ofJson? (limit + 2) e.toJson = some e := by
  rw [ofJson?, toJson, Json.fields?_names]
  · simp only [List.map_cons, List.map_nil, Option.bind_eq_bind, Option.bind_some, made.ofJson?_toJson,
      Nat.add_one_sub_one, Json.bytes?_succ]
    rfl
  · rfl
  · simp

namespace PropertyRecord

/-- The visibilities of the property, of its metadata and of those from whom it is hidden. -/
def visibilities (p : PropertyRecord) : List Visibility :=
  p.visibility :: p.metadata.map (·.visibility) ++ p.hidden

@[simp] theorem written_toJson (p : PropertyRecord) : p.toJson.Written := by simp [toJson]

theorem ofJson?_toJson {p : PropertyRecord} (made : ∀ v ∈ p.visibilities, v.Made) (limit : Nat) :
    ofJson? (limit + 4) p.toJson = some p := by
  have own : p.visibility.Made := made _ (by simp [visibilities])
  have hidden : ∀ v ∈ p.hidden, v.Made := fun v mem => made _ (by simp [visibilities, mem])
  have metadata : ∀ e ∈ p.metadata, e.visibility.Made := fun e mem =>
    made _ (List.mem_append_left _ (List.mem_cons_of_mem _ (List.mem_map_of_mem mem)))
  have entries : Json.records? (limit + 3) EntryRecord.ofJson? _ = some p.metadata :=
    Json.records?_array fun e mem => EntryRecord.ofJson?_toJson (metadata e mem) limit
  rw [ofJson?, toJson, Json.fields?_names]
  · simp only [List.map_cons, List.map_nil, Option.bind_eq_bind, Option.bind_some, own.ofJson?_toJson,
      Nat.add_one_sub_one, Json.bytes?_succ, entries, Visibility.listOfJson?_listToJson hidden]
    rfl
  · rfl
  · simp

end PropertyRecord

theorem Endpoints.written_toJson (e : Endpoints) : e.toJson.Written := by simp [toJson]

theorem Endpoints.optionOfJson?_toJson (e : Option Endpoints) (limit : Nat) :
    optionOfJson? (limit + 1) (some ((e.map toJson).getD .null)) = some e := by
  cases e with
  | none => rfl
  | some e =>
    have back : ofJson? (limit + 1) e.toJson = some e := by
      rw [ofJson?, toJson, Json.fields?_names]
      · rfl
      · rfl
      · simp
    exact congrArg (Option.map some) back

namespace EdgeRef

def visibilities (r : EdgeRef) : List Visibility := r.visibility :: r.hidden

@[simp] theorem written_toJson (r : EdgeRef) : r.toJson.Written := by simp [toJson]

theorem ofJson?_toJson {r : EdgeRef} (made : ∀ v ∈ r.visibilities, v.Made) (limit : Nat) :
    ofJson? (limit + 2) r.toJson = some r := by
  obtain ⟨own, hidden⟩ := List.forall_mem_cons.mp made
  rw [ofJson?, toJson, Json.fields?_names]
  · simp only [List.map_cons, List.map_nil, Option.bind_eq_bind, Option.bind_some, own.ofJson?_toJson,
      Nat.add_one_sub_one, Direction.case?_title, Visibility.listOfJson?_listToJson hidden]
    rfl
  · rfl
  · simp

end EdgeRef

/-! ### Records -/

namespace Record

/-- Every visibility in the record. -/
def visibilities (r : Record) : List Visibility :=
  r.visibility :: r.hidden ++ r.properties.flatMap PropertyRecord.visibilities ++
    r.edgeRefs.flatMap EdgeRef.visibilities

theorem written_toJson (r : Record) : r.toJson.Written := by
  have endpoints : ((r.endpoints.map Endpoints.toJson).getD .null).Written := by
    cases r.endpoints with
    | none => simp [Json.Written]
    | some e => exact e.written_toJson
  simp [toJson, endpoints]

theorem ofJson?_toJson {r : Record} (made : ∀ v ∈ r.visibilities, v.Made) (limit : Nat) :
    ofJson? (limit + 6) r.toJson = some r := by
  have own : r.visibility.Made := made _ (by simp [visibilities])
  have hidden : ∀ v ∈ r.hidden, v.Made := fun v mem => made _ (by simp [visibilities, mem])
  have properties : ∀ p ∈ r.properties, ∀ v ∈ p.visibilities, v.Made := fun p mem v there =>
    made v (List.mem_append_left _ (List.mem_append_right _ (List.mem_flatMap_of_mem mem there)))
  have edgeRefs : ∀ e ∈ r.edgeRefs, ∀ v ∈ e.visibilities, v.Made := fun e mem v there =>
    made v (List.mem_append_right _ (List.mem_flatMap_of_mem mem there))
  have all : Json.records? (limit + 5) PropertyRecord.ofJson? _ = some r.properties :=
    Json.records?_array fun p mem => PropertyRecord.ofJson?_toJson (properties p mem) limit
  have refs : Json.records? (limit + 5) EdgeRef.ofJson? _ = some r.edgeRefs :=
    Json.records?_array fun e mem => EdgeRef.ofJson?_toJson (edgeRefs e mem) (limit + 2)
  rw [ofJson?, toJson, Json.fields?_names]
  · simp only [List.map_cons, List.map_nil, Option.bind_eq_bind, Option.bind_some, own.ofJson?_toJson,
      Nat.add_one_sub_one, ElementType.case?_title, Visibility.listOfJson?_listToJson hidden, all, refs,
      Endpoints.optionOfJson?_toJson]
    rfl
  · rfl
  · simp

/-- A record is read again from its JSON, with all that is in it. -/
theorem ofText_render {r : Record} (made : ∀ v ∈ r.visibilities, v.Made) : ofText r.render = .ok r := by
  have read : ofJson? Json.nesting r.toJson = some r := ofJson?_toJson made 121
  rw [ofText, render, Json.ofText?_render r.written_toJson, Option.bind_some, read]

end Record

/-- The text that a visibility keeps, without the blanks around, makes the same visibility again, of the expression that
the whole text spells; and visibilities that compare equal have the same readers. A record with visibilities of texts is
read again from its JSON text, each of its visibilities with the same readers. -/
theorem texts_round_trip :
    (∀ text v, Visibility.ofText text = .ok v →
      Visibility.parse text = .ok v.rule ∧ v.text = Text.trim text ∧ ∃ w, Visibility.ofText v.text = .ok w ∧
        compare w v = .eq ∧ w.text = v.text ∧ ∀ a, w.readableBy a = v.readableBy a) ∧
    (∀ v w : Visibility, compare v w = .eq → ∀ a, v.readableBy a = w.readableBy a) ∧
    (∀ r : Record, (∀ v ∈ r.visibilities, v.Made) → ∃ s, Record.ofText r.render = .ok s ∧ s = r ∧
      List.Forall₂ (fun w v => ∀ a, w.readableBy a = v.readableBy a) s.visibilities r.visibilities) := by
  refine ⟨fun text v made => ?_, fun v w same a => ?_, fun r made => ?_⟩
  · have again := Visibility.Made.ofText_text ⟨text, made⟩
    exact ⟨Visibility.rule_of_ofText made, Visibility.text_of_ofText made, v, again,
      Visibility.compare_eq_iff.mpr rfl, rfl, fun _ => rfl⟩
  · rw [Visibility.compare_eq_iff.mp same]
  · exact ⟨r, Record.ofText_render made, rfl, List.forall₂_same.mpr fun _ _ _ => rfl⟩

/-- A visibility of two terms, one of which has to be quoted. -/
def keepers : Visibility := ⟨"\"é\"|b", some (.either (.term "é") (.term "b")), by decide⟩

/-- A vertex with bytes that are no text, a hidden property, metadata and an edge. -/
def kept : Record where
  type := .vertex
  id := "v\n\"1\""
  visibility := keepers
  hidden := [.unrestricted]
  properties := [⟨"k", "név", .unrestricted, ⟨#[0x00, 0x22, 0xff]⟩, [⟨"m", keepers, .empty⟩], [keepers]⟩]
  endpoints := none
  edgeRefs := [⟨"e1", "knows", "v2", .incoming, .unrestricted, [keepers]⟩]

theorem texts_round_trip_kept : Visibility.ofText "\u2003\"é\"|b\t" = .ok keepers ∧
    Visibility.ofText "\"é\"|b" = .ok keepers ∧ Record.ofText kept.render = .ok kept := by
  obtain ⟨visibilities, -, records⟩ := texts_round_trip
  have spaced : Visibility.ofText "\u2003\"é\"|b\t" = .ok keepers := rfl
  obtain ⟨-, -, v, again, same, -⟩ := visibilities _ _ spaced
  have made : ∀ v ∈ kept.visibilities, v.Made := by
    have all : ∀ v ∈ kept.visibilities, v = keepers ∨ v = .unrestricted := by decide
    intro v mem
    rcases all v mem with rfl | rfl
    · exact ⟨_, spaced⟩
    · exact ⟨"", rfl⟩
  obtain ⟨s, read, rfl, -⟩ := records kept made
  exact ⟨spaced, Visibility.compare_eq_iff.mp same ▸ again, read⟩

end GuardedGraph
