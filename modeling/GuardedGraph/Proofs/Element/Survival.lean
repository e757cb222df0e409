import GuardedGraph.Proofs.Contents.Places

/-! What is hidden from a writer survives what the writer removes, moves and notes, unless something is moved to its
place. -/

namespace GuardedGraph

variable {a : Authorizations}

theorem Property.visibleTo_eq (p : Property) (a : Authorizations) :
    p.visibleTo a = (p.visibility.readableBy a && !p.hiddenFrom a) := rfl

namespace Change

/-- The change is none of those by which a writer reaches a property that is hidden from it: it neither sets one nor
hides it or shows it again. -/
def SparesHidden : Change → Prop
  | set .. | hide .. | unhide .. => False
  | removeAll .. | remove .. | move .. | annotate .. | relabel .. => True

/-- The change gives a property the visibility by which it comes to the place. -/
def MovesTo (place : String × String × Visibility) : Change → Prop
  | move key name _ visibility => (key, name, visibility) = place
  | _ => False

variable {c : Change} {ps qs : List Property} {p : Property}

/-- No such change touches a property that is hidden from its writer, unless it moves another one to its place. -/
theorem keep?_of_hidden (spares : c.SparesHidden) (hidden : p.hiddenFrom a = true) (away : ¬c.MovesTo p.place) :
    c.keep? a p = some p := by
  cases c with
  | removeAll key name => simp [keep?, Property.visibleTo_eq, hidden]
  | remove key name v => simp [keep?, hidden]
  | move key name source v =>
    have elsewhere : ¬p.isAt key name v = true := fun there => away (Property.isAt_iff.mp there).symm
    simp [keep?, Property.visibleTo_eq, hidden, elsewhere]
  | annotate key name entry value v => simp [keep?, Property.visibleTo_eq, hidden]
  | relabel v => rfl
  | set | hide | unhide => exact spares.elim

/-- Another property that its writer sees has come to the place of `p`, from which `p` has gone. -/
structure Replaced (a : Authorizations) (ps qs : List Property) (p : Property) : Prop where
  gone : p ∉ qs
  moved : ∃ q ∈ ps, q.visibleTo a = true ∧ q.named p.key p.name = true ∧ { q with visibility := p.visibility } ∈ qs

theorem Does.replaced (does : Does a ps c qs) (distinct : Property.Distinct ps) (mem : p ∈ ps)
    (hidden : p.hiddenFrom a = true) (onto : c.MovesTo p.place) : Replaced a ps qs p := by
  cases does with
  | @stay p₀ key name source only =>
    -- The property that stays at the place would be the hidden one.
    have there : p₀ ∈ ps ∧ (p₀.named key name && p₀.visibleTo a && source.all (· == p₀.visibility)) = true :=
      List.mem_filter.mp (only ▸ List.mem_singleton_self p₀)
    simp only [Bool.and_eq_true] at there
    obtain ⟨mem₀, ⟨named, visible⟩, -⟩ := there
    have same : p₀ = p := distinct.eq mem₀ mem
      ((Property.isAt_iff.mp (by rw [Property.isAt, named, beq_self_eq_true]; rfl)).trans onto)
    simp [same, Property.visibleTo_eq, hidden] at visible
  | @move l r p₀ key name source v middle fit unfit =>
    subst middle
    obtain ⟨rfl, place⟩ := Prod.mk.inj (onto : (key, name, v) = (p.key, p.name, p.visibility))
    obtain ⟨rfl, rfl⟩ := Prod.mk.inj place
    have own : p.isAt p.key p.name p.visibility = true := Property.isAt_iff.mpr rfl
    simp only [Bool.and_eq_true] at fit
    obtain ⟨⟨named, visible⟩, -⟩ := fit
    refine ⟨fun kept => ?_, p₀, List.mem_append_right l List.mem_cons_self, visible, named,
      List.mem_append_right _ List.mem_cons_self⟩
    rcases List.mem_append.mp kept with kept | kept
    · simp [own] at kept
    · rcases List.mem_cons.mp kept with same | kept
      · have shown : p₀.hiddenFrom a = true := by
          rw [same] at hidden
          exact hidden
        simp [Property.visibleTo_eq, shown] at visible
      · simp [own] at kept
  | _ => exact onto.elim

end Change

/-- A property that is hidden from a writer survives whatever the writer does that neither sets nor hides properties
nor shows them again, unless another property is moved to its place and replaces it. -/
theorem hidden_survives_or_replaced {c : Change} {e f : Element} {p : Property} (spares : c.SparesHidden)
    (applied : e.apply a [c] = .ok f) (distinct : Property.Distinct e.properties) (mem : p ∈ e.properties)
    (hidden : p.hiddenFrom a = true) :
    (¬c.MovesTo p.place → p ∈ f.properties) ∧
      (c.MovesTo p.place → Change.Replaced a e.properties f.properties p) := by
  have does := Element.does_of_apply applied
  exact ⟨fun away => does.mem_of_keep? distinct mem (Change.keep?_of_hidden spares hidden away),
    fun onto => does.replaced distinct mem hidden onto⟩

def desk : Visibility := ⟨"desk", some (.term "desk"), by decide⟩

def press : Visibility := ⟨"press", some (.term "press"), by decide⟩

/-- A report for the desk that is hidden from the press. -/
def embargoed : Property := ⟨"", "report", .string "in full", desk, .empty, [press]⟩

def summary : Property := ⟨"", "report", .string "in short", .unrestricted, .empty, []⟩

def reports : Element := ⟨"v", .unrestricted, [summary, embargoed], []⟩

theorem distinct_reports : Property.Distinct reports.properties := by
  unfold Property.Distinct
  decide +kernel

theorem hidden_survives_or_replaced_reports :
    let writer := Authorizations.ofList ["desk", "press"]
    (∃ f, reports.apply writer [.removeAll none "report"] = .ok f ∧ f.properties = [embargoed] ∧
        embargoed ∈ f.properties) ∧
      ∃ f, reports.apply writer [.move "" "report" none desk] = .ok f ∧
        f.properties = [{ summary with visibility := desk }] ∧
          Change.Replaced writer reports.properties f.properties embargoed := by
  have mem : embargoed ∈ reports.properties := List.mem_cons_of_mem _ List.mem_cons_self
  have removed : reports.apply (.ofList ["desk", "press"]) [.removeAll none "report"] =
      .ok { reports with properties := [embargoed] } := rfl
  have moved : reports.apply (.ofList ["desk", "press"]) [.move "" "report" none desk] =
      .ok { reports with properties := [{ summary with visibility := desk }] } := rfl
  have hidden : embargoed.hiddenFrom (.ofList ["desk", "press"]) = true := by decide +kernel
  exact ⟨⟨_, removed, rfl, (hidden_survives_or_replaced (by trivial) removed distinct_reports mem hidden).1 id⟩,
    _, moved, rfl, (hidden_survives_or_replaced (by trivial) moved distinct_reports mem hidden).2 rfl⟩

/-- A writer who can read a report but from whom it is hidden makes it lost also to those who could see it. -/
theorem hidden_lost_to_move :
    let writer := Authorizations.ofList ["desk", "press"]
    let reader := Authorizations.ofList ["desk"]
    ∃ f, reports.apply writer [.move "" "report" none desk] = .ok f ∧ Property.Distinct reports.properties ∧
      embargoed ∈ reports.properties ∧ embargoed.visibility.readableBy writer = true ∧
      embargoed.hiddenFrom writer = true ∧ embargoed.visibleTo reader = true ∧ embargoed ∉ f.properties := by
  refine ⟨_, rfl, distinct_reports, List.mem_cons_of_mem _ List.mem_cons_self, by decide +kernel, by decide +kernel,
    by decide +kernel, fun kept => ?_⟩
  have only := List.mem_singleton.mp kept
  exact absurd (congrArg Property.hidden only) (by decide +kernel)

end GuardedGraph
