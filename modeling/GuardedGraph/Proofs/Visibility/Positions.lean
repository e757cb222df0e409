import GuardedGraph.Visibility.Basic

/-!
Where faults are placed. Every position that reading a text comes by, of a lexeme, of something pending or of an open
group, is one where a character of the text begins, or its end (`parse_at`), so a fault is at none between the bytes of
a character. Blanks in front move a fault by their width (`parse_blanks_append`).
-/

namespace GuardedGraph.Visibility

open Text

/-- The positions of an answer, as far as `inside` looks into what is given, are all known ones. -/
def Placing {α : Type} (known : Nat → Prop) (inside : α → Prop) : Except ParseError α → Prop
  | .ok a => inside a
  | .error e => known e.position

/-- Where something pending has begun. -/
def Pending.At (known : Nat → Prop) : Pending → Prop
  | .nothing => True
  | .bare start _ => known start
  | .quoted start _ => known start
  | .escape start _ => known start

def LexemesAt (known : Nat → Prop) (ls : List Placed) : Prop := ∀ l ∈ ls, known l.start

/-- Where the groups left open begin. -/
def State.At (known : Nat → Prop) : State → Prop
  | .operand groups _ => ∀ g ∈ groups, known g.opened
  | .operator groups _ _ => ∀ g ∈ groups, known g.opened

variable {known : Nat → Prop} {α β : Type} {pos : Nat}

theorem lexemesAt_nil : LexemesAt known [] := List.forall_mem_nil _

theorem Placing.bind {inside : α → Prop} {inside' : β → Prop} {x : Except ParseError α} {f : α → Except ParseError β}
    (first : Placing known inside x) (then' : ∀ a, inside a → Placing known inside' (f a)) :
    Placing known inside' (x.bind f) := by
  cases x with
  | ok a => exact then' a first
  | error e => exact first

theorem Placing.map {inside : α → Prop} {inside' : β → Prop} {x : Except ParseError α} {f : α → β}
    (here : Placing known inside x) (given : ∀ a, inside a → inside' (f a)) : Placing known inside' (x.map f) := by
  cases x with
  | ok a => exact given a here
  | error e => exact here

/-! ### Lexemes -/

theorem enter_at (here : known pos) (c : Char) :
    Placing known (fun r => LexemesAt known r.1 ∧ r.2.At known) (enter pos c) := by
  have single (lexeme : Lexeme) : LexemesAt known [⟨lexeme, pos⟩] ∧ Pending.nothing.At known :=
    ⟨List.forall_mem_singleton.mpr here, trivial⟩
  unfold enter
  repeat' split
  · exact ⟨lexemesAt_nil, trivial⟩
  · exact single .conj
  · exact single .disj
  · exact single .opening
  · exact single .closing
  · exact ⟨lexemesAt_nil, here⟩
  · exact ⟨lexemesAt_nil, here⟩
  · exact here

theorem lexStep_at (here : known pos) (c : Char) {p : Pending} (begun : p.At known) :
    Placing known (fun r => LexemesAt known r.1 ∧ r.2.At known) (lexStep pos c p) := by
  cases p with
  | nothing => exact enter_at here c
  | bare start text =>
    rw [lexStep]
    split
    · exact ⟨lexemesAt_nil, begun⟩
    · exact (enter_at here c).map fun r given => ⟨List.forall_mem_cons.mpr ⟨begun, given.1⟩, given.2⟩
  | quoted start text =>
    rw [lexStep]
    repeat' split
    · exact ⟨lexemesAt_nil, begun⟩
    · exact begun
    · exact ⟨List.forall_mem_singleton.mpr begun, trivial⟩
    · exact ⟨lexemesAt_nil, begun⟩
  | escape start text =>
    rw [lexStep]
    split
    · exact ⟨lexemesAt_nil, begun⟩
    · exact here

theorem lexEnd_at {p : Pending} (begun : p.At known) : Placing known (LexemesAt known) (lexEnd p) := by
  cases p with
  | nothing => exact lexemesAt_nil
  | bare start text => exact List.forall_mem_singleton.mpr begun
  | quoted start text => exact begun
  | escape start text => exact begun

/-- Reading on from a byte comes by no other positions than those of its characters. -/
theorem lexFrom_at {p : Pending} {cs : List Char} (begun : p.At known)
    (characters : ∀ before after, cs = before ++ after → known (pos + width before)) :
    Placing known (LexemesAt known) (lexFrom p pos cs) := by
  induction cs generalizing p pos with
  | nil => exact lexEnd_at begun
  | cons c cs ih =>
    refine (lexStep_at (characters [] (c :: cs) rfl) c begun).bind fun r given => ?_
    refine Placing.map (ih given.2 fun before after split => ?_) fun ls later =>
      List.forall_mem_append.mpr ⟨given.1, later⟩
    rw [Nat.add_assoc]
    exact characters (c :: before) after (by rw [split, List.cons_append])

/-! ### Groups -/

theorem misplaced_at {groups : List Group} (opened : ∀ g ∈ groups, known g.opened) (here : known pos) :
    known (misplaced groups pos).position := by
  cases groups with
  | nil => exact here
  | cons g groups => exact opened g List.mem_cons_self

theorem join_at {groups : List Group} (opened : ∀ g ∈ groups, known g.opened) (whole : Expr) (op : Option Operator)
    (next : Operator) (here : known pos) : Placing known (State.At known) (State.join groups whole op next pos) := by
  unfold State.join
  split
  · exact opened
  · exact here

theorem step_at {s : State} (opened : s.At known) {l : Placed} (here : known l.start) :
    Placing known (State.At known) (s.step l) := by
  obtain ⟨lexeme, start⟩ := l
  cases s with
  | operand groups left =>
    cases lexeme with
    | term token => exact opened
    | opening => exact List.forall_mem_cons.mpr ⟨here, opened⟩
    | closing =>
      unfold State.step
      simp only
      split <;> exact here
    | conj => exact here
    | disj => exact here
  | operator groups whole op =>
    cases lexeme with
    | conj => exact join_at opened whole op .conj here
    | disj => exact join_at opened whole op .disj here
    | closing =>
      cases groups with
      | nil => exact here
      | cons g groups => exact (List.forall_mem_cons.mp opened).2
    | term token => exact misplaced_at opened here
    | opening => exact misplaced_at opened here

theorem run_at {s : State} (opened : s.At known) {ls : List Placed} (lexemes : LexemesAt known ls) :
    Placing known (State.At known) (ls.foldlM State.step s) := by
  induction ls generalizing s with
  | nil => exact opened
  | cons l ls ih =>
    obtain ⟨here, later⟩ := List.forall_mem_cons.mp lexemes
    rw [List.foldlM_cons]
    exact (step_at opened here).bind fun t opened => ih opened later

theorem finish_at {s : State} (opened : s.At known) {stop : Nat} (last : known stop) :
    Placing known (fun _ => True) (s.finish stop) := by
  cases s with
  | operand groups left => exact last
  | operator groups whole op =>
    cases groups with
    | nil => trivial
    | cons g groups => exact opened g List.mem_cons_self

/-! ### Texts -/

/-- The bytes of a text where a character begins, and its end. -/
def Boundary (text : String) (n : Nat) : Prop := ∃ before after, text.toList = before ++ after ∧ width before = n

theorem width_toList (text : String) : width text.toList = text.utf8ByteSize := by
  obtain ⟨cs, rfl⟩ : ∃ cs, text = String.ofList cs := ⟨text.toList, String.ofList_toList.symm⟩
  rw [String.toList_ofList]
  induction cs with
  | nil => rfl
  | cons c cs ih => rw [width, ih, String.ofList_cons, String.utf8ByteSize_append, String.utf8ByteSize_singleton]

theorem boundary_iff {text : String} {n : Nat} : Boundary text n ↔ String.Pos.Raw.IsValid text ⟨n⟩ := by
  rw [String.Pos.Raw.isValid_iff_exists_append]
  constructor
  · rintro ⟨before, after, split, rfl⟩
    refine ⟨.ofList before, .ofList after, ?_, ?_⟩
    · rw [← String.ofList_append, ← split, String.ofList_toList]
    · rw [String.rawEndPos, ← width_toList, String.toList_ofList]
  · rintro ⟨before, after, rfl, place⟩
    refine ⟨before.toList, after.toList, String.toList_append, ?_⟩
    rw [width_toList]
    exact (congrArg String.Pos.Raw.byteIdx place).symm

theorem parse_at (text : String) : Placing (Boundary text) (fun _ => True) (parse text) := by
  have characters (before after : List Char) (split : text.toList = before ++ after) :
      Boundary text (0 + width before) := ⟨before, after, split, (Nat.zero_add _).symm⟩
  have last : Boundary text (width text.toList) := ⟨text.toList, [], (List.append_nil _).symm, rfl⟩
  refine (lexFrom_at (p := .nothing) trivial characters).bind fun ls lexemes => ?_
  split
  · trivial
  · have assembled : Placing (Boundary text) (fun _ => True) (assemble (width text.toList) ls) :=
      (run_at (s := .operand [] none) nofun lexemes).bind fun s opened => finish_at opened last
    exact assembled.map fun _ _ => trivial

theorem parse_blanks_append {blanks : String} (blank : ∀ c ∈ blanks.toList, isBlank c) (text : String) :
    parse (blanks ++ text) = shifted blanks.utf8ByteSize id (parse text) := by
  have read : lexemes (blanks ++ text).toList =
      shifted blanks.utf8ByteSize (List.map (Placed.shift blanks.utf8ByteSize)) (lexemes text.toList) := by
    rw [lexemes, String.toList_append, lexFrom_blanks_append blank, width_toList]
    exact lexFrom_shift _ .nothing 0 _
  have stop : width (blanks ++ text).toList = width text.toList + blanks.utf8ByteSize := by
    rw [String.toList_append, width_append, width_toList, Nat.add_comm]
  rw [parse, parse, read, stop]
  cases lexemes text.toList with
  | error e => rfl
  | ok ls =>
    simp only [shifted, Except.bind, List.map_eq_nil_iff]
    split
    · rfl
    · rw [assemble_shift]
      cases assemble (width text.toList) ls <;> rfl

theorem ofText_error_iff {text : String} {e : ParseError} : ofText text = .error e ↔ parse text = .error e := by
  unfold ofText
  split
  · next rule parsed => simp [parsed]
  · next f failed => rw [failed, Except.error.injEq, Except.error.injEq]

/-- The fault of a text that is no visibility is placed at the beginning of a character or at the end, and blanks in
front of the text leave it the same, as many bytes later as they take. -/
theorem faults_placed {text : String} {e : ParseError} (failed : ofText text = .error e) :
    e.position ≤ text.utf8ByteSize ∧ String.Pos.Raw.IsValid text ⟨e.position⟩ ∧
      ∀ blanks : String, (∀ c ∈ blanks.toList, isBlank c) →
        ofText (blanks ++ text) = .error ⟨e.fault, e.position + blanks.utf8ByteSize⟩ := by
  rw [ofText_error_iff] at failed
  have placed := parse_at text
  rw [failed] at placed
  have valid := boundary_iff.mp placed
  refine ⟨valid.le_utf8ByteSize, valid, fun blanks blank => ?_⟩
  rw [ofText_error_iff, parse_blanks_append blank, failed]
  rfl

/-- An escape behind a character of two bytes, and blanks of three bytes and of one in front. -/
theorem faults_placed_escape : ofText "\"é\\n\"" = .error ⟨.badEscape 'n', 4⟩ ∧
    String.Pos.Raw.IsValid "\"é\\n\"" ⟨4⟩ ∧ ofText ("\u2003\t" ++ "\"é\\n\"") = .error ⟨.badEscape 'n', 8⟩ := by
  have failed : ofText "\"é\\n\"" = .error ⟨.badEscape 'n', 4⟩ := ofText_error_iff.mpr rfl
  obtain ⟨-, valid, moved⟩ := faults_placed failed
  exact ⟨failed, valid, moved "\u2003\t" (List.all_eq_true.mp rfl)⟩

end GuardedGraph.Visibility
