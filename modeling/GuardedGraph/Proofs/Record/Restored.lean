import GuardedGraph.Proofs.Record.Decoding

/-! What becomes of stored properties that are read and stored again. Their values come back as far as the stored
forms determine them; everything else comes back as it was. -/

namespace GuardedGraph

open Outcome

/-! ### Tables from entries in order -/

namespace Table

variable {α : Type}

theorem place_last {k : String} {v : α} {l : List (String × α)} (last : ∀ e ∈ l, e.1 < k) :
    place k v l = l ++ [(k, v)] := by
  induction l with
  | nil => rfl
  | cons e l ih =>
    obtain ⟨j, w⟩ := e
    have before : j < k := last (j, w) List.mem_cons_self
    have below : ¬k < j := fun above => String.lt_irrefl _ (String.lt_trans before above)
    have other : j ≠ k := fun same => String.lt_irrefl _ (same ▸ before)
    rw [place, if_neg below, if_neg other, ih fun e mem => last e (List.mem_cons_of_mem _ mem)]
    rfl

theorem entries_foldl_insert {l : List (String × α)} {t : Table α}
    (ascending : (t.entries ++ l).Pairwise fun a b => a.1 < b.1) :
    (l.foldl (fun t e => t.insert e.1 e.2) t).entries = t.entries ++ l := by
  induction l generalizing t with
  | nil => simp
  | cons e l ih =>
    have last : ∀ d ∈ t.entries, d.1 < e.1 := by
      intro d mem
      exact (List.pairwise_append.mp ascending).2.2 d mem e List.mem_cons_self
    have one : (t.insert e.1 e.2).entries = t.entries ++ [e] := place_last last
    have rest : ((t.insert e.1 e.2).entries ++ l).Pairwise fun a b => a.1 < b.1 := by
      rw [one, List.append_assoc]
      exact ascending
    rw [List.foldl_cons, ih rest, one, List.append_assoc]
    rfl

theorem entries_ofList {l : List (String × α)} (ascending : l.Pairwise fun a b => a.1 < b.1) :
    (ofList l).entries = l := entries_foldl_insert (t := .empty) ascending

end Table

/-! ### Stored forms -/

/-- The stored form of the value that the bytes are a stored form of. -/
def Value.restored (b : ByteArray) : ByteArray :=
  match decode b with
  | .ok v => v.encode
  | .error _ => b

def EntryRecord.restored (e : EntryRecord) : EntryRecord := { e with value := Value.restored e.value }

/-- The property with its value, and the values of its metadata, read and stored again. -/
def PropertyRecord.restored (p : PropertyRecord) : PropertyRecord :=
  { p with value := Value.restored p.value, metadata := p.metadata.map EntryRecord.restored }

/-- Whether a stream can be read does not show in its stored form. -/
theorem Value.encode_attach (v : Value) : v.attach.encode = v.encode := by
  cases v with
  | stream s =>
    obtain ⟨kind, source⟩ := s
    cases source <;> rfl
  | _ => rfl

theorem encode_of_decodeAttached {b : ByteArray} {v : Value} (h : decodeAttached b = .ok v) :
    v.encode = Value.restored b := by
  obtain ⟨w, read, rfl⟩ := map_ok h
  rw [Value.encode_attach, Value.restored, read]

/-- The entry `d` is what is read of the stored form of `e`. -/
def Reread (e d : String × Entry) : Prop :=
  d.1 = e.1 ∧ d.2.visibility = e.2.visibility ∧ decodeAttached e.2.value.encode = .ok d.2.value

/-- The entries that are read of those of a stored property, in their order. -/
theorem entries_of_decodeWith {p q : Property} {keep : EntryRecord → Bool} {hidden : List Visibility}
    (read : p.encode.decodeWith (p.encode.metadata.filter keep) hidden = .ok q) :
    List.Forall₂ Reread (p.metadata.entries.filter fun e => keep ⟨e.1, e.2.visibility, e.2.value.encode⟩)
      q.metadata.entries := by
  obtain ⟨metadata, value, entries, -, rfl⟩ := decodeWith_ok_iff.mp read
  have each := mapM_ok_iff.mp entries
  rw [Property.encode, List.filter_map, List.forall₂_map_left_iff] at each
  have each := each.imp fun e d decoded => show Reread e d by
    obtain ⟨v, stored, rfl⟩ := map_ok decoded
    exact ⟨rfl, rfl, stored⟩
  have names : metadata.map (·.1) =
      (p.metadata.entries.filter fun e => keep ⟨e.1, e.2.visibility, e.2.value.encode⟩).map (·.1) :=
    map_eq_of_forall₂ each fun e d same => same.1
  have ascending : metadata.Pairwise fun a b => a.1 < b.1 := by
    have kept := (List.pairwise_map (f := Prod.fst)).mpr
      (p.metadata.ascending.filter fun e => keep ⟨e.1, e.2.visibility, e.2.value.encode⟩)
    rw [← names, List.pairwise_map] at kept
    exact kept
  show List.Forall₂ _ _ (Table.ofList metadata).entries
  rw [Table.entries_ofList ascending]
  exact each

theorem entries_of_whole {p q : Property} (whole : p.encode.whole = .ok q) :
    List.Forall₂ Reread p.metadata.entries q.metadata.entries := by
  have all : p.encode.decodeWith (p.encode.metadata.filter fun _ => true) p.hidden = .ok q := by
    rw [List.filter_true]
    exact whole
  have each := entries_of_decodeWith all
  rwa [List.filter_true] at each

/-- Of what a property has been stored as, the stored form that it has when it is read and stored again. -/
theorem encode_of_whole {p q : Property} (whole : p.encode.whole = .ok q) : q.encode = p.encode.restored := by
  have entries : q.encode.metadata = p.encode.metadata.map EntryRecord.restored := by
    rw [Property.encode, Property.encode, List.map_map]
    refine map_eq_of_forall₂ (entries_of_whole whole) fun e d ⟨name, visibility, stored⟩ => ?_
    rw [Function.comp_apply, EntryRecord.restored, ← encode_of_decodeAttached stored, name, visibility]
  obtain ⟨metadata, value, -, read, rfl⟩ := decodeWith_ok_iff.mp whole
  rw [PropertyRecord.restored, ← entries, ← encode_of_decodeAttached read]
  rfl

end GuardedGraph
