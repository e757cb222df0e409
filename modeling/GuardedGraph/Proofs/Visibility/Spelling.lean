import GuardedGraph.Visibility.Basic

/-! Which texts are sequences of lexemes, and of which (`reads_iff`). -/

namespace GuardedGraph.Visibility

open Text

/-- What stands between the quotes of a term, and the term. -/
inductive Quoted : List Char → List Char → Prop
  | done : Quoted [] []
  | plain {c : Char} {cs text : List Char} : c ≠ '"' → c ≠ '\\' → Quoted cs text → Quoted (c :: cs) (c :: text)
  | escaped {c : Char} {cs text : List Char} : c = '"' ∨ c = '\\' → Quoted cs text →
      Quoted ('\\' :: c :: cs) (c :: text)

/-- A text as a sequence of lexemes, with blanks between them. A term without quotes is as long as it can be. -/
inductive Spells : List Char → List Lexeme → Prop
  | done : Spells [] []
  | blank {c : Char} {cs : List Char} {ls : List Lexeme} : isBlank c → Spells cs ls → Spells (c :: cs) ls
  | conj {cs : List Char} {ls : List Lexeme} : Spells cs ls → Spells ('&' :: cs) (.conj :: ls)
  | disj {cs : List Char} {ls : List Lexeme} : Spells cs ls → Spells ('|' :: cs) (.disj :: ls)
  | opening {cs : List Char} {ls : List Lexeme} : Spells cs ls → Spells ('(' :: cs) (.opening :: ls)
  | closing {cs : List Char} {ls : List Lexeme} : Spells cs ls → Spells (')' :: cs) (.closing :: ls)
  | bare {word cs : List Char} {ls : List Lexeme} : word ≠ [] → (∀ c ∈ word, isTermChar c) →
      (∀ c ∈ cs.head?, isTermChar c = false) → Spells cs ls → Spells (word ++ cs) (.term (.ofList word) :: ls)
  | quoted {body text cs : List Char} {ls : List Lexeme} : Quoted body text → text ≠ [] → Spells cs ls →
      Spells ('"' :: (body ++ '"' :: cs)) (.term (.ofList text) :: ls)

/-- From what is pending the characters are read as these lexemes. -/
def Reads (p : Pending) (pos : Nat) (cs : List Char) (ls : List Lexeme) : Prop :=
  ∃ placed, lexFrom p pos cs = .ok placed ∧ placed.map (·.lexeme) = ls

theorem reads_nil {p : Pending} {pos : Nat} {ls : List Lexeme} :
    Reads p pos [] ls ↔ ∃ placed, lexEnd p = .ok placed ∧ placed.map (·.lexeme) = ls := Iff.rfl

theorem reads_cons {p : Pending} {pos : Nat} {c : Char} {cs : List Char} {ls : List Lexeme} :
    Reads p pos (c :: cs) ls ↔ ∃ r ms, lexStep pos c p = .ok r ∧ Reads r.2 (pos + c.utf8Size) cs ms ∧
      ls = r.1.map (·.lexeme) ++ ms := by
  unfold Reads
  rw [lexFrom]
  constructor
  · rintro ⟨placed, read, rfl⟩
    cases step : lexStep pos c p with
    | error e => rw [step] at read; exact absurd read (by simp [Except.bind])
    | ok r =>
      rw [step] at read
      cases rest : lexFrom r.2 (pos + c.utf8Size) cs with
      | error e => simp [Except.bind, rest, Except.map] at read
      | ok more =>
        simp only [Except.bind, rest, Except.map] at read
        obtain rfl := Except.ok.inj read
        exact ⟨r, _, rfl, ⟨more, rest, rfl⟩, List.map_append⟩
  · rintro ⟨r, ms, step, ⟨more, rest, rfl⟩, rfl⟩
    refine ⟨r.1 ++ more, ?_, List.map_append⟩
    rw [step]
    simp only [Except.bind, rest]
    rfl

/-! ### Every spelling is read -/

theorem enter_of_isTermChar {c : Char} (h : isTermChar c) (pos : Nat) : enter pos c = .ok ([], .bare pos [c]) := by
  have blank : isBlank c = false := by
    cases blank : isBlank c with
    | false => rfl
    | true => exact absurd h (by simp [isTermChar_of_isBlank blank])
  have other : ∀ d, isTermChar d = false → c ≠ d := fun d hd same => by rw [same, hd] at h; exact absurd h (by simp)
  simp [enter, blank, h, other '&' (by decide), other '|' (by decide), other '(' (by decide), other ')' (by decide),
    other '"' (by decide)]

theorem reads_bare {word cs : List Char} {ls : List Lexeme} (all : ∀ c ∈ word, isTermChar c)
    (ends : ∀ c ∈ cs.head?, isTermChar c = false) (rest : ∀ pos, Reads .nothing pos cs ls) (start : Nat)
    (text : List Char) (pos : Nat) :
    Reads (.bare start text) pos (word ++ cs) (termOf (word.reverse ++ text) :: ls) := by
  induction word generalizing text pos with
  | nil =>
    cases cs with
    | nil =>
      obtain ⟨placed, none, rfl⟩ := rest pos
      obtain rfl := Except.ok.inj none
      exact ⟨_, rfl, rfl⟩
    | cons c cs =>
      obtain ⟨r, ms, step, more, rfl⟩ := reads_cons.mp (rest pos)
      refine reads_cons.mpr ⟨(⟨termOf text, start⟩ :: r.1, r.2), ms, ?_, more, rfl⟩
      rw [lexStep, if_neg (by simp [ends c rfl]), show enter pos c = .ok r from step]
      rfl
  | cons c word ih =>
    refine reads_cons.mpr ⟨([], .bare start (c :: text)), _, ?_,
      ih (fun d hd => all d (List.mem_cons_of_mem c hd)) (c :: text) _, ?_⟩
    · rw [lexStep, if_pos (all c List.mem_cons_self)]
    · simp

theorem reads_quoted {body meant cs : List Char} {ls : List Lexeme} (quoted : Quoted body meant)
    (rest : ∀ pos, Reads .nothing pos cs ls) (start : Nat) (text : List Char) (some : text ≠ [] ∨ meant ≠ [])
    (pos : Nat) :
    Reads (.quoted start text) pos (body ++ '"' :: cs) (termOf (meant.reverse ++ text) :: ls) := by
  induction quoted generalizing text pos with
  | done =>
    refine reads_cons.mpr ⟨([⟨termOf text, start⟩], .nothing), ls, ?_, rest _, rfl⟩
    simpa [lexStep] using some
  | @plain c cs' meant' quote slash _ ih =>
    refine reads_cons.mpr ⟨([], .quoted start (c :: text)), _, ?_, ih (c :: text) (.inl (List.cons_ne_nil _ _)) _, ?_⟩
    · rw [lexStep, if_neg slash, if_neg quote]
    · simp
  | @escaped c cs' meant' special _ ih =>
    refine reads_cons.mpr ⟨([], .escape start text), _, ?_, reads_cons.mpr ⟨([], .quoted start (c :: text)), _, ?_,
      ih (c :: text) (.inl (List.cons_ne_nil _ _)) _, rfl⟩, ?_⟩
    · simp [lexStep]
    · rw [lexStep, if_pos special]
    · simp

theorem reads_of_spells {cs : List Char} {ls : List Lexeme} (spells : Spells cs ls) (pos : Nat) :
    Reads .nothing pos cs ls := by
  induction spells generalizing pos with
  | done => exact ⟨[], rfl, rfl⟩
  | blank blank _ ih => exact reads_cons.mpr ⟨_, _, enter_of_isBlank blank pos, ih _, rfl⟩
  | conj _ ih => exact reads_cons.mpr ⟨([⟨.conj, pos⟩], .nothing), _, rfl, ih _, rfl⟩
  | disj _ ih => exact reads_cons.mpr ⟨([⟨.disj, pos⟩], .nothing), _, rfl, ih _, rfl⟩
  | opening _ ih => exact reads_cons.mpr ⟨([⟨.opening, pos⟩], .nothing), _, rfl, ih _, rfl⟩
  | closing _ ih => exact reads_cons.mpr ⟨([⟨.closing, pos⟩], .nothing), _, rfl, ih _, rfl⟩
  | @bare word cs ls some all ends _ ih =>
    cases word with
    | nil => exact absurd rfl some
    | cons c word =>
      refine reads_cons.mpr ⟨_, _, enter_of_isTermChar (all c List.mem_cons_self) pos,
        reads_bare (fun d hd => all d (List.mem_cons_of_mem c hd)) ends ih pos [c] _, ?_⟩
      simp [termOf]
  | quoted quoted some _ ih =>
    refine reads_cons.mpr ⟨([], .quoted pos []), _, rfl, reads_quoted quoted ih pos [] (.inr some) _, ?_⟩
    simp [termOf]

/-! ### What is read is a spelling -/

/-- What characters have to be like to go on from what is pending. -/
def Continues (cs : List Char) (ls : List Lexeme) : Pending → Prop
  | .nothing => Spells cs ls
  | .bare _ text => ∃ word rest ms, cs = word ++ rest ∧ (∀ c ∈ word, isTermChar c) ∧
      (∀ c ∈ rest.head?, isTermChar c = false) ∧ Spells rest ms ∧ ls = termOf (word.reverse ++ text) :: ms
  | .quoted _ text => ∃ body meant rest ms, cs = body ++ '"' :: rest ∧ Quoted body meant ∧
      (text ≠ [] ∨ meant ≠ []) ∧ Spells rest ms ∧ ls = termOf (meant.reverse ++ text) :: ms
  | .escape _ text => ∃ c body meant rest ms, cs = c :: (body ++ '"' :: rest) ∧ (c = '"' ∨ c = '\\') ∧
      Quoted body meant ∧ Spells rest ms ∧ ls = termOf (meant.reverse ++ c :: text) :: ms

theorem spells_of_enter {pos : Nat} {c : Char} {cs : List Char} {ls : List Lexeme} {r : List Placed × Pending}
    (entered : enter pos c = .ok r) (continues : Continues cs ls r.2) :
    Spells (c :: cs) (r.1.map (·.lexeme) ++ ls) := by
  unfold enter at entered
  split at entered
  · next blank =>
    obtain rfl := Except.ok.inj entered
    exact .blank blank continues
  split at entered
  · next same =>
    obtain rfl := Except.ok.inj entered
    exact same ▸ .conj continues
  split at entered
  · next same =>
    obtain rfl := Except.ok.inj entered
    exact same ▸ .disj continues
  split at entered
  · next same =>
    obtain rfl := Except.ok.inj entered
    exact same ▸ .opening continues
  split at entered
  · next same =>
    obtain rfl := Except.ok.inj entered
    exact same ▸ .closing continues
  split at entered
  · next same =>
    obtain rfl := Except.ok.inj entered
    obtain ⟨body, meant, rest, ms, rfl, quoted, some, spells, rfl⟩ := continues
    subst same
    simpa [termOf] using Spells.quoted quoted (some.resolve_left (fun none => none rfl)) spells
  split at entered
  · next own =>
    obtain rfl := Except.ok.inj entered
    obtain ⟨word, rest, ms, rfl, all, ends, spells, rfl⟩ := continues
    simpa [termOf] using Spells.bare (List.cons_ne_nil c word) (List.forall_mem_cons.mpr ⟨own, all⟩) ends spells
  · exact absurd entered (by simp)

theorem continues_of_reads {p : Pending} {pos : Nat} {cs : List Char} {ls : List Lexeme} (reads : Reads p pos cs ls) :
    Continues cs ls p := by
  induction cs generalizing p pos ls with
  | nil =>
    obtain ⟨placed, ends, rfl⟩ := reads_nil.mp reads
    cases p with
    | nothing =>
      obtain rfl := Except.ok.inj ends
      exact .done
    | bare start text =>
      obtain rfl := Except.ok.inj ends
      exact ⟨[], [], [], rfl, by simp, by simp, .done, rfl⟩
    | quoted start text => exact absurd ends (by simp [lexEnd])
    | escape start text => exact absurd ends (by simp [lexEnd])
  | cons c cs ih =>
    obtain ⟨r, ls, step, more, rfl⟩ := reads_cons.mp reads
    have continues := ih more
    cases p with
    | nothing => exact spells_of_enter step continues
    | bare start text =>
      rw [lexStep] at step
      split at step
      · next own =>
        obtain rfl := Except.ok.inj step
        obtain ⟨word, rest, ms, rfl, all, ends, spells, rfl⟩ := continues
        exact ⟨c :: word, rest, ms, rfl, List.forall_mem_cons.mpr ⟨own, all⟩, ends, spells, by simp⟩
      · next other =>
        cases entered : enter pos c with
        | error e => rw [entered] at step; exact absurd step (by simp [Except.map])
        | ok e =>
          rw [entered] at step
          obtain rfl := Except.ok.inj step
          exact ⟨[], c :: cs, _, rfl, by simp, by simpa using other, spells_of_enter entered continues, rfl⟩
    | quoted start text =>
      rw [lexStep] at step
      split at step
      · next same =>
        obtain rfl := Except.ok.inj step
        obtain ⟨d, body, meant, rest, ms, rfl, special, quoted, spells, rfl⟩ := continues
        subst same
        exact ⟨_, d :: meant, rest, ms, rfl, .escaped special quoted, .inr (List.cons_ne_nil _ _), spells, by simp⟩
      · next slash =>
        split at step
        · next same =>
          split at step
          · exact absurd step (by simp)
          · next some =>
            obtain rfl := Except.ok.inj step
            exact ⟨[], [], cs, ls, by rw [same]; rfl, .done, .inl (by simpa using some), continues, rfl⟩
        · next quote =>
          obtain rfl := Except.ok.inj step
          obtain ⟨body, meant, rest, ms, rfl, quoted, -, spells, rfl⟩ := continues
          exact ⟨c :: body, c :: meant, rest, ms, rfl, .plain quote slash quoted, .inr (List.cons_ne_nil _ _), spells,
            by simp⟩
    | escape start text =>
      rw [lexStep] at step
      split at step
      · next special =>
        obtain rfl := Except.ok.inj step
        obtain ⟨body, meant, rest, ms, rfl, quoted, -, spells, rfl⟩ := continues
        exact ⟨c, body, meant, rest, ms, rfl, special, quoted, spells, rfl⟩
      · exact absurd step (by simp)

/-- The reading of a text is its only spelling. -/
theorem spells_iff {cs : List Char} {ls : List Lexeme} :
    Spells cs ls ↔ ∃ placed, lexemes cs = .ok placed ∧ placed.map (·.lexeme) = ls :=
  ⟨fun spells => reads_of_spells spells 0, fun (reads : Reads .nothing 0 cs ls) => continues_of_reads reads⟩

theorem Spells.unique {cs : List Char} {ls ms : List Lexeme} (one : Spells cs ls) (other : Spells cs ms) :
    ls = ms := by
  obtain ⟨placed, read, rfl⟩ := spells_iff.mp one
  obtain ⟨placed', read', rfl⟩ := spells_iff.mp other
  rw [Except.ok.inj (read.symm.trans read')]

/-! ### Blanks between lexemes -/

theorem spells_blanks {bs cs : List Char} {ls : List Lexeme} (blank : ∀ b ∈ bs, isBlank b) (spells : Spells cs ls) :
    Spells (bs ++ cs) ls := by
  induction bs with
  | nil => exact spells
  | cons b bs ih =>
    exact .blank (blank b List.mem_cons_self) (ih fun c hc => blank c (List.mem_cons_of_mem b hc))

/-- Where a blank stands, lexemes end and lexemes begin. -/
theorem Spells.around {cs ds : List Char} {ls ms : List Lexeme} {b : Char} (left : Spells cs ls) (blank : isBlank b)
    (right : Spells ds ms) : Spells (cs ++ b :: ds) (ls ++ ms) := by
  induction left with
  | done => exact .blank blank right
  | blank blank' _ ih => exact .blank blank' ih
  | conj _ ih => exact .conj ih
  | disj _ ih => exact .disj ih
  | opening _ ih => exact .opening ih
  | closing _ ih => exact .closing ih
  | @bare word cs ls some all ends _ ih =>
    rw [List.append_assoc]
    refine .bare some all (fun c hc => ?_) ih
    cases cs with
    | nil =>
      obtain rfl : b = c := by simpa using hc
      exact isTermChar_of_isBlank blank
    | cons d cs => exact ends c hc
  | quoted quoted some _ ih =>
    rw [List.cons_append, List.append_assoc, List.cons_append]
    exact .quoted quoted some ih

/-- Blanks put between lexemes, before the first or behind the last, leave the lexemes as they are. -/
theorem spells_insert {cs bs ds : List Char} {ls ms : List Lexeme} (left : Spells cs ls) (right : Spells ds ms)
    (together : Spells (cs ++ ds) (ls ++ ms)) (blank : ∀ b ∈ bs, isBlank b) :
    Spells (cs ++ (bs ++ ds)) (ls ++ ms) := by
  cases bs with
  | nil => exact together
  | cons b bs =>
    exact left.around (blank b List.mem_cons_self)
      (spells_blanks (fun c hc => blank c (List.mem_cons_of_mem b hc)) right)

end GuardedGraph.Visibility
