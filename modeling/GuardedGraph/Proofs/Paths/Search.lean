import GuardedGraph.Proofs.Outcome
import GuardedGraph.Proofs.Paths.Trails

/-! The search for paths, at once and one by one. When the neighbours of every vertex can be read, both give
the paths that the trails from the start come to. -/

namespace GuardedGraph

open Store (Backend)
open Outcome

namespace PathSearch

variable {σ : Type} [Backend σ] {g : Graph σ}

/-- Asked again and again, the search gives these paths and then says that there are no more. -/
inductive Gives (g : Graph σ) : PathSearch → List (List String) → Prop
  | done {s s' : PathSearch} : s.next g = (.ok none, s') → Gives g s []
  | more {s s' : PathSearch} {p : List String} {ps : List (List String)} :
      s.next g = (.ok (some p), s') → Gives g s' ps → Gives g s (p :: ps)

/-! ### What a step does not look at -/

/-- The search with other paths found ahead of its own. -/
def ahead (ps : List (List String)) (s : PathSearch) : PathSearch := { s with found := ps ++ s.found }

def atLevel (ws : List Trail) (s : PathSearch) : PathSearch := { s with level := ws }

def going (s : PathSearch) : PathSearch := { s with started := true }

theorem neighbours_of_known (s s' : PathSearch) (known : s'.known = s.known) (reader : s'.reader = s.reader)
    (vertex : String) : s'.neighbours g vertex = s.neighbours g vertex := by
  simp only [neighbours, known, reader]

theorem extend_ahead (ps : List (List String)) (s : PathSearch) (w : Trail) :
    (s.ahead ps).extend g w = (s.extend g w).map (ahead ps) := by
  unfold extend
  rw [neighbours_of_known s (s.ahead ps) rfl rfl]
  cases s.neighbours g w.last with
  | error e => rfl
  | ok others =>
    refine congrArg Except.ok ?_
    simp only [ahead, List.append_assoc]
    rfl

theorem extend_atLevel (ws : List Trail) (s : PathSearch) (w : Trail) :
    (s.atLevel ws).extend g w = (s.extend g w).map (atLevel ws) := by
  unfold extend
  rw [neighbours_of_known s (s.atLevel ws) rfl rfl]
  cases s.neighbours g w.last <;> rfl

theorem extend_going (s : PathSearch) (w : Trail) : s.going.extend g w = (s.extend g w).map going := by
  unfold extend
  rw [neighbours_of_known s s.going rfl rfl]
  cases s.neighbours g w.last <;> rfl

section Map

variable {f : PathSearch → PathSearch} (one : ∀ s w, (f s).extend g w = (s.extend g w).map f)
include one

theorem foldlM_extend_map (ws : List Trail) (s : PathSearch) :
    ws.foldlM (extend g) (f s) = (ws.foldlM (extend g) s).map f := by
  induction ws generalizing s with
  | nil => rfl
  | cons w ws ih =>
    rw [List.foldlM_cons, List.foldlM_cons, one]
    cases s.extend g w with
    | error e => rfl
    | ok s' => exact ih s'

/-- What makes no difference to single steps makes none to all that follow, but for the paths found. -/
theorem exhaust_map {h : List (List String) → List (List String)} (level : ∀ s, (f s).level = s.level)
    (deeper : ∀ s, (f s).deeper = s.deeper) (found : ∀ s, (f s).found = h s.found)
    (descend : ∀ s left, (f s).descend left = f (s.descend left)) (left : Nat) (s : PathSearch) :
    (f s).exhaust g left = (s.exhaust g left).map h := by
  induction left generalizing s with
  | zero =>
    unfold exhaust
    rw [level, foldlM_extend_map one]
    cases s.level.foldlM (extend g) s with
    | error e => rfl
    | ok t => exact congrArg Except.ok (found t)
  | succ left ih =>
    unfold exhaust
    rw [level, foldlM_extend_map one]
    cases s.level.foldlM (extend g) s with
    | error e => rfl
    | ok t =>
      simp only [bind, Except.bind, Except.map, deeper, found, descend, ih]
      cases t.deeper.isEmpty <;> rfl

end Map

theorem exhaust_ahead (ps : List (List String)) (left : Nat) (s : PathSearch) :
    (s.ahead ps).exhaust g left = (s.exhaust g left).map (ps ++ ·) :=
  exhaust_map (extend_ahead ps) (fun _ => rfl) (fun _ => rfl) (fun _ => rfl) (fun _ _ => rfl) left s

theorem exhaust_going (left : Nat) (s : PathSearch) : s.going.exhaust g left = s.exhaust g left := by
  rw [exhaust_map (h := id) extend_going (fun _ => rfl) (fun _ => rfl) (fun _ => rfl) (fun _ _ => rfl)]
  cases s.exhaust g left <;> rfl

/-! ### One by one -/

theorem extend_keeps {s s' : PathSearch} {w : Trail} (done : s.extend g w = .ok s') :
    s'.left = s.left ∧ s'.started = s.started := by
  obtain ⟨others, -, done⟩ := bind_ok done
  rw [← pure_ok done]
  exact ⟨rfl, rfl⟩

/-- A sweep stops at a point from which extending all that remains comes to the same. -/
theorem sweep_ok {ws : List Trail} {s t : PathSearch} (all : ws.foldlM (extend g) s = .ok t) :
    ∃ s', sweep g ws s = (.ok (), s') ∧ s'.level.foldlM (extend g) s' = .ok (t.atLevel s'.level) ∧
      s'.left = s.left ∧ s'.started = s.started ∧ (s'.found = [] → s'.level = []) := by
  induction ws generalizing s with
  | nil =>
    obtain rfl := pure_ok all
    exact ⟨s.atLevel [], rfl, rfl, rfl, rfl, fun _ => rfl⟩
  | cons w ws ih =>
    rw [List.foldlM_cons] at all
    obtain ⟨s₁, first, all⟩ := bind_ok all
    obtain ⟨left, started⟩ := extend_keeps first
    simp only [sweep, first]
    split
    · obtain ⟨s', swept, rest, left', started', empty⟩ := ih all
      exact ⟨s', swept, rest, left'.trans left, started'.trans started, empty⟩
    · next some =>
      refine ⟨s₁.atLevel ws, rfl, ?_, left, started, fun none => absurd ?_ some⟩
      · rw [show (s₁.atLevel ws).level = ws from rfl, foldlM_extend_map (extend_atLevel ws), all]
        rfl
      · rw [show s₁.found = [] from none]
        rfl

/-- Behind its level the search goes on in the same way wherever it stood in the level. -/
theorem exhaust_of_level {left : Nat} {s s' t : PathSearch} (here : s.level.foldlM (extend g) s = .ok t)
    (there : s'.level.foldlM (extend g) s' = .ok (t.atLevel s'.level)) : s'.exhaust g left = s.exhaust g left := by
  cases left <;> unfold exhaust <;> rw [here, there] <;> rfl

theorem rest_eq (s : PathSearch) :
    s.rest g = (if s.started then .ok s else s.begin g) >>= fun b => b.exhaust g b.left := by
  unfold rest
  split <;> rfl

theorem rest_of_started {left : Nat} {s : PathSearch} (started : s.started) (own : s.left = left) :
    s.rest g = s.exhaust g left := by
  rw [rest_eq, if_pos started, ← own]
  rfl

/-- What a search that has found paths gives. -/
theorem exhaust_found {left : Nat} {s : PathSearch} {p : List String} {fs ps : List (List String)}
    (found : s.found = p :: fs) (all : s.exhaust g left = .ok ps) :
    ∃ qs, ps = p :: qs ∧ exhaust g left { s with found := fs } = .ok qs := by
  have split : s = ahead [p] { s with found := fs } := by
    cases s
    simpa [ahead] using found
  rw [split, exhaust_ahead] at all
  obtain ⟨qs, rest, same⟩ := map_ok all
  exact ⟨qs, same.symm, rest⟩

theorem seek_of_found {left : Nat} {s s' : PathSearch} {p : List String} {fs : List (List String)}
    (swept : sweep g s.level s = (.ok (), s')) (found : s'.found = p :: fs) :
    s.seek g left = (.ok (some p), { s' with found := fs }) := by
  cases left <;> unfold seek <;> simp only [swept, found]

theorem seek_of_none {left : Nat} {s t : PathSearch} (swept : sweep g s.level s = (.ok (), t.atLevel []))
    (empty : t.found = []) : s.seek g left = match left with
      | 0 => (.ok none, t.atLevel [])
      | left + 1 => if t.deeper.isEmpty then (.ok none, t.atLevel []) else seek g left (t.descend left) := by
  have empty' : (t.atLevel []).found = [] := empty
  cases left
  · rw [seek, swept]
    simp only [empty']
  · rw [seek, swept]
    simp only [empty']
    rfl

theorem level_of_exhaust {left : Nat} {s : PathSearch} {ps : List (List String)} (all : s.exhaust g left = .ok ps) :
    ∃ t, s.level.foldlM (extend g) s = .ok t := by
  unfold exhaust at all
  obtain ⟨t, level, -⟩ := bind_ok all
  exact ⟨t, level⟩

/-- The search found something in its level, or there is nothing in it. -/
theorem seek_level {left : Nat} {s : PathSearch} {ps : List (List String)} (started : s.started) (own : s.left = left)
    (all : s.exhaust g left = .ok ps) :
    (∃ p qs s', ps = p :: qs ∧ s.seek g left = (.ok (some p), s') ∧ s'.started ∧ s'.rest g = .ok qs) ∨
      ∃ t, s.level.foldlM (extend g) s = .ok t ∧ sweep g s.level s = (.ok (), t.atLevel []) ∧ t.found = [] ∧
        t.started := by
  obtain ⟨t, level⟩ := level_of_exhaust all
  obtain ⟨s', swept, rest, left', started', empty⟩ := sweep_ok level
  cases found : s'.found with
  | cons p fs =>
    obtain ⟨qs, same, others⟩ := exhaust_found found ((exhaust_of_level level rest).trans all)
    refine .inl ⟨p, qs, { s' with found := fs }, same, seek_of_found swept found, started'.trans started, ?_⟩
    rw [rest_of_started (s := { s' with found := fs }) (started'.trans started) (left'.trans own)]
    exact others
  | nil =>
    rw [empty found] at rest
    obtain rfl : s' = t.atLevel [] := pure_ok rest
    exact .inr ⟨t, level, swept, found, started'.trans started⟩

theorem seek_ok {left : Nat} {s : PathSearch} {ps : List (List String)} (started : s.started) (own : s.left = left)
    (all : s.exhaust g left = .ok ps) :
    (ps = [] ∧ ∃ s', s.seek g left = (.ok none, s')) ∨
      ∃ p qs s', ps = p :: qs ∧ s.seek g left = (.ok (some p), s') ∧ s'.started ∧ s'.rest g = .ok qs := by
  induction left generalizing s with
  | zero =>
    rcases seek_level started own all with found | ⟨t, level, swept, empty, going⟩
    · exact .inr found
    · rw [exhaust, level] at all
      exact .inl ⟨(pure_ok all).symm.trans empty, _, seek_of_none swept empty⟩
  | succ left ih =>
    rcases seek_level started own all with found | ⟨t, level, swept, empty, going⟩
    · exact .inr found
    · rw [exhaust, level] at all
      simp only [seek_of_none swept empty]
      change (if t.deeper.isEmpty then pure t.found else exhaust g left (t.descend left)) = _ at all
      split at all
      · next bottom => exact .inl ⟨(pure_ok all).symm.trans empty, _, if_pos bottom⟩
      · next further =>
        simp only [if_neg further]
        exact ih (s := t.descend left) going rfl all

theorem next_of_begun {s b : PathSearch} (begun : (if s.started then .ok s else s.begin g) = .ok b) :
    s.next g = match b.found with
      | p :: ps => (.ok (some p), { b.going with found := ps })
      | [] => b.going.seek g b.left := by
  unfold next
  simp only [begun]
  rfl

/-- The next path is the first of the rest, and the search that goes on has the others. -/
theorem next_ok {s : PathSearch} {ps : List (List String)} (all : s.rest g = .ok ps) :
    (ps = [] ∧ ∃ s', s.next g = (.ok none, s')) ∨
      ∃ p qs s', ps = p :: qs ∧ s.next g = (.ok (some p), s') ∧ s'.rest g = .ok qs := by
  rw [rest_eq] at all
  obtain ⟨b, begun, all⟩ := bind_ok all
  rw [← exhaust_going] at all
  rw [next_of_begun begun]
  cases found : b.found with
  | cons p fs =>
    obtain ⟨qs, same, others⟩ := exhaust_found (s := b.going) found all
    exact .inr ⟨p, qs, _, same, rfl, (rest_of_started (s := { b.going with found := fs }) rfl rfl).trans others⟩
  | nil =>
    rcases seek_ok (s := b.going) rfl rfl all with ⟨none, s', done⟩ | ⟨p, qs, s', same, sought, -, others⟩
    · exact .inl ⟨none, s', done⟩
    · exact .inr ⟨p, qs, s', same, sought, others⟩

/-- One by one the search gives what it gives at once. -/
theorem gives_of_rest {s : PathSearch} {ps : List (List String)} (all : s.rest g = .ok ps) : s.Gives g ps := by
  induction ps generalizing s with
  | nil =>
    rcases next_ok all with ⟨-, s', done⟩ | ⟨p, qs, s', same, -, -⟩
    · exact .done done
    · exact absurd same (List.cons_ne_nil p qs).symm
  | cons p ps ih =>
    rcases next_ok all with ⟨same, -⟩ | ⟨p', qs, s', same, given, others⟩
    · exact absurd same (List.cons_ne_nil p ps)
    · obtain ⟨rfl, rfl⟩ := List.cons.inj same
      exact .more given (ih others)

/-! ### Over known neighbours -/

/-- What the search finds around a vertex when it has not been there. -/
def around (g : Graph σ) (a : Authorizations) (vertex : String) : Except Error (List String) := do
  match ← g.get? .vertex vertex a with
  | none => return []
  | some v =>
    let edges ← g.fetchAll .edge (edgeIds (Vertex.edgeRefs v)) a
    return (othersAcross v.id edges).filter (· ≠ vertex)

/-- What the search remembers of neighbours is what it would find. -/
def Remembers (beside : String → List String) (s : PathSearch) : Prop :=
  ∀ v others, s.known.get? v = some others → others = beside v

variable {beside : String → List String} {s : PathSearch} (readable : ∀ v, around g s.reader v = .ok (beside v))
include readable

theorem neighbours_eq (remembers : s.Remembers beside) (vertex : String) :
    s.neighbours g vertex = .ok (beside vertex) := by
  cases known : s.known.get? vertex with
  | some others =>
    rw [neighbours, known, remembers vertex others known]
    rfl
  | none =>
    rw [← readable, neighbours, known]
    rfl

theorem extend_eq (remembers : s.Remembers beside) (w : Trail) :
    ∃ known, (∀ v others, known.get? v = some others → others = beside v) ∧
      s.extend g w = .ok { s with
        known
        found := s.found ++ w.arrivals beside s.target
        deeper := if s.left = 0 then s.deeper else s.deeper ++ w.onward beside s.target } := by
  refine ⟨s.known.insert w.last (beside w.last), fun v others known => ?_, ?_⟩
  · rw [Table.get?_insert] at known
    split at known
    · next same => rw [← Option.some.inj known, same]
    · exact remembers v others known
  · rw [extend, neighbours_eq readable remembers]
    rfl

theorem foldlM_extend_eq (ws : List Trail) (remembers : s.Remembers beside) :
    ∃ known, (∀ v others, known.get? v = some others → others = beside v) ∧
      ws.foldlM (extend g) s = .ok { s with
        known
        found := s.found ++ ws.flatMap (·.arrivals beside s.target)
        deeper := if s.left = 0 then s.deeper else s.deeper ++ ws.flatMap (·.onward beside s.target) } := by
  induction ws generalizing s with
  | nil => exact ⟨s.known, remembers, by simp [pure, Except.pure]⟩
  | cons w ws ih =>
    obtain ⟨known, sound, one⟩ := extend_eq readable remembers w
    obtain ⟨known', sound', rest⟩ := ih (s := { s with
      known
      found := s.found ++ w.arrivals beside s.target
      deeper := if s.left = 0 then s.deeper else s.deeper ++ w.onward beside s.target }) readable sound
    refine ⟨known', sound', ?_⟩
    rw [List.foldlM_cons, one]
    refine rest.trans (congrArg Except.ok ?_)
    simp only [List.flatMap_cons, List.append_assoc]
    split <;> simp_all

/-- The search gives what it has found and the paths that its trails come to. -/
theorem exhaust_eq {left : Nat} (remembers : s.Remembers beside) (own : s.left = left) (top : s.deeper = []) :
    s.exhaust g left = .ok (s.found ++ Trail.paths beside s.target left s.level) := by
  induction left generalizing s with
  | zero =>
    obtain ⟨known, -, level⟩ := foldlM_extend_eq readable s.level remembers
    rw [exhaust, level]
    rfl
  | succ left ih =>
    obtain ⟨known, sound, level⟩ := foldlM_extend_eq readable s.level remembers
    rw [exhaust, level, own, top]
    simp only [bind, Except.bind, Nat.succ_ne_zero, if_false, List.nil_append, descend]
    cases deeper : s.level.flatMap (·.onward beside s.target) with
    | nil =>
      rw [Trail.paths, deeper, Trail.paths_nil, List.append_nil]
      rfl
    | cons w ws =>
      have further := ih (s := { s with
        known
        found := s.found ++ s.level.flatMap (·.arrivals beside s.target)
        level := w :: ws
        deeper := []
        left }) readable sound rfl rfl
      rw [Trail.paths, deeper, ← List.append_assoc]
      exact further

end PathSearch

end GuardedGraph
