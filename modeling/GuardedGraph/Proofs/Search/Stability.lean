import GuardedGraph.Proofs.Search.Calls
import GuardedGraph.Proofs.Text.Lowercase

/-! The terms of a term. Texts are split before they are lowered, and a lowered `İ` has a dot, at which a term is split
again. All other terms are their own only terms, so what is listed under them is found by them (`terms_stable`). -/

namespace GuardedGraph.Search

open Text

/-! ### Words -/

theorem pieces_ne_nil (cs : List Char) : pieces cs ≠ [] := by
  cases cs with
  | nil => exact List.cons_ne_nil _ _
  | cons c cs =>
    rw [pieces]
    split
    · split <;> exact List.cons_ne_nil _ _
    · exact List.cons_ne_nil _ _

theorem pieces_cons_letter {c : Char} (letter : isAlphanumeric c) {cs p : List Char} {ps : List (List Char)}
    (rest : pieces cs = p :: ps) : pieces (c :: cs) = (c :: p) :: ps := by
  rw [pieces, if_pos letter, rest]

theorem pieces_cons_other {c : Char} (other : isAlphanumeric c = false) (cs : List Char) :
    pieces (c :: cs) = [] :: pieces cs := by
  rw [pieces, if_neg (by simp [other])]

theorem pieces_append {c : Char} (other : isAlphanumeric c = false) (cs ds : List Char) :
    pieces (cs ++ c :: ds) = pieces cs ++ pieces ds := by
  induction cs with
  | nil => exact pieces_cons_other other ds
  | cons b cs ih =>
    obtain ⟨p, ps, rest⟩ := List.exists_cons_of_ne_nil (pieces_ne_nil cs)
    cases kind : isAlphanumeric b with
    | true =>
      rw [rest] at ih
      rw [List.cons_append, pieces_cons_letter kind ih, pieces_cons_letter kind rest]
      rfl
    | false => rw [List.cons_append, pieces_cons_other kind, pieces_cons_other kind, ih, List.cons_append]

theorem flatten_pieces (cs : List Char) : (pieces cs).flatten = cs.filter isAlphanumeric := by
  induction cs with
  | nil => rfl
  | cons c cs ih =>
    obtain ⟨p, ps, rest⟩ := List.exists_cons_of_ne_nil (pieces_ne_nil cs)
    cases kind : isAlphanumeric c with
    | true =>
      rw [pieces_cons_letter kind rest, List.filter_cons_of_pos kind, ← ih, rest]
      rfl
    | false => rw [pieces_cons_other kind, List.filter_cons_of_neg (by simp [kind]), ← ih, List.flatten_cons,
        List.nil_append]

theorem pieces_of_letters {cs : List Char} (letters : ∀ c ∈ cs, isAlphanumeric c) : pieces cs = [cs] := by
  induction cs with
  | nil => rfl
  | cons c cs ih =>
    obtain ⟨here, later⟩ := List.forall_mem_cons.mp letters
    exact pieces_cons_letter here (ih later)

theorem words_append {c : Char} (other : isAlphanumeric c = false) (cs ds : List Char) :
    words (cs ++ c :: ds) = words cs ++ words ds := by
  rw [words, pieces_append other, List.filter_append]
  rfl

theorem flatten_words (cs : List Char) : (words cs).flatten = cs.filter isAlphanumeric := by
  rw [words, List.flatten_filter_not_isEmpty, flatten_pieces]

theorem ne_nil_of_mem_words {cs w : List Char} (mem : w ∈ words cs) : w ≠ [] := by
  have some := (List.mem_filter.mp mem).2
  rintro rfl
  exact absurd some (by decide)

theorem letter_of_mem_words {cs w : List Char} (mem : w ∈ words cs) {c : Char} (there : c ∈ w) :
    c ∈ cs ∧ isAlphanumeric c := by
  rw [← List.mem_filter, ← flatten_words]
  exact List.mem_flatten_of_mem mem there

theorem words_eq_singleton {cs : List Char} (some : cs ≠ []) :
    words cs = [cs] ↔ ∀ c ∈ cs, isAlphanumeric c := by
  constructor
  · intro one c there
    exact (letter_of_mem_words (one ▸ List.mem_singleton_self cs) there).2
  · intro letters
    rw [words, pieces_of_letters letters, List.filter_cons_of_pos (by simpa using some), List.filter_nil]

/-! ### Terms -/

theorem terms_append {c : Char} (other : isAlphanumeric c = false) (a b : String) :
    terms (a ++ String.singleton c ++ b) = terms a ++ terms b := by
  have whole : (a ++ String.singleton c ++ b).toList = a.toList ++ c :: b.toList := by simp
  rw [terms, whole, words_append other, List.map_append]
  rfl

/-- What a text gives as a term: a word of it, lowered. -/
theorem mem_terms {text term : String} : term ∈ terms text ↔ ∃ w ∈ words text.toList, term.toList = lowercase w := by
  rw [terms, List.mem_map]
  refine exists_congr fun w => and_congr_right fun _ => ⟨?_, ?_⟩
  · rintro rfl
    exact String.toList_ofList
  · intro same
    rw [← same, String.ofList_toList]

theorem settled_of_mem_terms {text term : String} (mem : term ∈ terms text) :
    ∀ c ∈ term.toList, c ≠ dot → Settled c := by
  obtain ⟨w, word, lowered⟩ := mem_terms.mp mem
  rw [lowered]
  exact (mem_lowerFrom (fun c there => (letter_of_mem_words word there).2) []).1

theorem ne_nil_of_mem_terms {text term : String} (mem : term ∈ terms text) : term.toList ≠ [] := by
  obtain ⟨w, word, lowered⟩ := mem_terms.mp mem
  exact lowered ▸ lowercase_ne_nil (ne_nil_of_mem_words word)

theorem letters_iff_of_mem_terms {text term : String} (mem : term ∈ terms text) :
    (∀ c ∈ term.toList, isAlphanumeric c) ↔ dot ∉ term.toList := by
  constructor
  · intro letters there
    exact absurd (letters dot there) (by simp [not_alphanumeric_dot])
  · intro plain c there
    exact (settled_of_mem_terms mem c there fun same => plain (same ▸ there)).letter

/-- The words of a term stay as they are when they are lowered again. -/
theorem terms_of_mem_terms {text term : String} (mem : term ∈ terms text) :
    terms term = (words term.toList).map String.ofList := by
  refine List.map_congr_left fun w word => congrArg String.ofList ?_
  refine lowerFrom_of_settled (fun c there => ?_) []
  obtain ⟨inside, letter⟩ := letter_of_mem_words word there
  refine settled_of_mem_terms mem c inside ?_
  rintro rfl
  exact absurd letter (by simp [not_alphanumeric_dot])

theorem terms_eq_singleton {text term : String} (mem : term ∈ terms text) :
    terms term = [term] ↔ dot ∉ term.toList := by
  have single : [term] = [term.toList].map String.ofList := by simp
  rw [terms_of_mem_terms mem, single, (List.map_injective_iff.mpr fun a b => String.ofList_injective).eq_iff,
    words_eq_singleton (ne_nil_of_mem_terms mem), letters_iff_of_mem_terms mem]

theorem dotted_iff (text : String) : (∃ term ∈ terms text, dot ∈ term.toList) ↔ 'İ' ∈ text.toList := by
  have letter : isAlphanumeric 'İ' := by decide +kernel
  have lowered {w : List Char} (word : w ∈ words text.toList) : dot ∈ lowercase w ↔ 'İ' ∈ w :=
    (mem_lowerFrom (fun c there => (letter_of_mem_words word there).2) []).2
  constructor
  · rintro ⟨term, mem, there⟩
    obtain ⟨w, word, same⟩ := mem_terms.mp mem
    exact (letter_of_mem_words word ((lowered word).mp (same ▸ there))).1
  · intro there
    have kept : 'İ' ∈ (words text.toList).flatten := by
      rw [flatten_words]
      exact List.mem_filter.mpr ⟨there, letter⟩
    obtain ⟨w, word, inside⟩ := List.mem_flatten.mp kept
    refine ⟨String.ofList (lowercase w), List.mem_map_of_mem word, ?_⟩
    rw [String.toList_ofList]
    exact (lowered word).mpr inside

/-- What is listed under a term can always be found by it only if the term has no dot: otherwise the text that is one
word, lowered to that term, is listed under nothing that the term is split into. -/
theorem found_iff_of_mem_terms {text term : String} (mem : term ∈ terms text) :
    (∀ calls t id, (((Index.after calls).get t).ids term).contains id → id ∈ (Index.after calls).search t term) ↔
      dot ∉ term.toList := by
  constructor
  · intro found there
    obtain ⟨w, word, lowered⟩ := mem_terms.mp mem
    have alone : terms (String.ofList w) = [term] := by
      have letters : ∀ c ∈ w, isAlphanumeric c := fun c inside => (letter_of_mem_words word inside).2
      rw [terms, String.toList_ofList, (words_eq_singleton (ne_nil_of_mem_words word)).mpr letters, List.map_singleton,
        ← lowered, String.ofList_toList]
    let calls : List Call := [.insert .vertex "" [("", String.ofList w)]]
    have last : LastInserted calls .vertex "" [("", String.ofList w)] := ⟨[], [], rfl, nofun⟩
    have listed_iff {u : String} : (((Index.after calls).get .vertex).ids u).contains "" ↔ u = term := by
      rw [Index.listed_after]
      constructor
      · rintro ⟨fields, last', listed⟩
        obtain rfl := last.unique last'
        simpa [alone] using listed
      · rintro rfl
        exact ⟨_, last, by simp [alone]⟩
    obtain ⟨some, all⟩ := mem_search.mp (found calls .vertex "" (listed_iff.mpr rfl))
    obtain ⟨u, part⟩ := List.exists_mem_of_ne_nil _ some
    obtain rfl := listed_iff.mp (all u part)
    rw [terms_of_mem_terms mem] at part
    obtain ⟨v, word', rfl⟩ := List.mem_map.mp part
    rw [String.toList_ofList] at there word'
    exact absurd (letter_of_mem_words word' there).2 (by simp [not_alphanumeric_dot])
  · intro plain calls t id listed
    rw [mem_search, (terms_eq_singleton mem).mpr plain]
    exact ⟨List.cons_ne_nil _ _, fun other there => List.mem_singleton.mp there ▸ listed⟩

/-- A text is split at every character that is neither letter nor number. A term has the dot of a lowered `İ` only if
the text has an `İ`. No term is empty, and it is made of letters and numbers, is its own only term, and finds all that
can be listed under it, each if and only if it has no dot; with dots it is split at them. -/
theorem terms_stable (text : String) :
    (∀ a b c, isAlphanumeric c = false → text = a ++ String.singleton c ++ b → terms text = terms a ++ terms b) ∧
      ((∃ term ∈ terms text, dot ∈ term.toList) ↔ 'İ' ∈ text.toList) ∧
      ∀ term ∈ terms text, term ≠ "" ∧ terms term = (words term.toList).map String.ofList ∧
        ((∀ c ∈ term.toList, isAlphanumeric c) ↔ dot ∉ term.toList) ∧ (terms term = [term] ↔ dot ∉ term.toList) ∧
        ((∀ calls t id, (((Index.after calls).get t).ids term).contains id → id ∈ (Index.after calls).search t term) ↔
          dot ∉ term.toList) := by
  refine ⟨?_, dotted_iff text, fun term mem => ⟨?_, terms_of_mem_terms mem, letters_iff_of_mem_terms mem,
    terms_eq_singleton mem, found_iff_of_mem_terms mem⟩⟩
  · rintro a b c other rfl
    exact terms_append other a b
  · rintro rfl
    exact ne_nil_of_mem_terms mem rfl

/-- A vertex that is listed under a term with a dot. -/
def dotted : List Call := [.insert .vertex "v1" [("city", "Eski İstanbul")]]

theorem terms_stable_dotted :
    terms "Eski İstanbul" = terms "Eski" ++ terms "İstanbul" ∧ terms "Eski İstanbul" = ["eski", "i\u0307stanbul"] ∧
      terms "i\u0307stanbul" = ["i", "stanbul"] ∧ terms "i\u0307stanbul" ≠ ["i\u0307stanbul"] ∧
      "v1" ∈ (Index.after dotted).search .vertex "eski" ∧
      (((Index.after dotted).get .vertex).ids "i\u0307stanbul").contains "v1" ∧
      (Index.after dotted).search .vertex "i\u0307stanbul" = [] := by
  obtain ⟨split, -, each⟩ := terms_stable "Eski İstanbul"
  have both : terms "Eski İstanbul" = ["eski", "i\u0307stanbul"] := by decide +kernel
  obtain ⟨-, -, -, -, found⟩ := each "eski" (by simp [both])
  obtain ⟨-, again, -, alone, -⟩ := each "i\u0307stanbul" (by simp [both])
  refine ⟨split "Eski" "İstanbul" ' ' (by decide +kernel) rfl, both, ?_, ?_, ?_, by decide +kernel, by decide +kernel⟩
  · rw [again]
    decide +kernel
  · rw [Ne, alone]
    decide +kernel
  · exact found.mpr (by decide +kernel) _ _ _ (by decide +kernel)

end GuardedGraph.Search
