import GuardedGraph.Graph.Paths
import Mathlib.Data.List.Chain
import Mathlib.Data.List.Nodup
import Mathlib.Data.List.Perm.Subperm

/-! Trails that are extended level by level, over neighbours that are known: which paths they come to, and
that there is an end to it. -/

namespace GuardedGraph

namespace Trail

theorem visited_step (w : Trail) (v : String) : (w.step v).visited = v :: w.visited := rfl

theorem path_step (w : Trail) (v : String) : (w.step v).path = w.path ++ [v] := List.reverse_cons

theorem length_path (w : Trail) : w.path.length = w.visited.length := List.length_reverse

theorem visited_inj {w x : Trail} (same : w.visited = x.visited) : w = x := by
  cases w
  cases x
  simpa [visited] using same

theorem step_inj {w x : Trail} {u v : String} (same : w.step u = x.step v) : w = x ∧ u = v := by
  have visited : u :: w.visited = v :: x.visited := congrArg Trail.visited same
  exact ⟨visited_inj (List.cons.inj visited).2, (List.cons.inj visited).1⟩

theorem path_inj {w x : Trail} (same : w.path = x.path) : w = x := visited_inj (List.reverse_injective same)

variable (beside : String → List String) (target : String)

/-- The neighbours of the last vertex that the trail has not visited. -/
def fresh (w : Trail) : List String := (beside w.last).filter (!w.visited.contains ·)

def arrivals (w : Trail) : List (List String) :=
  ((w.fresh beside).filter (· = target)).map fun vertex => (w.step vertex).path

def onward (w : Trail) : List Trail := ((w.fresh beside).filter (· ≠ target)).map w.step

/-- The paths that trails of one level come to when at most `left` levels follow it. -/
def paths : Nat → List Trail → List (List String)
  | 0, ws => ws.flatMap (arrivals beside target)
  | left + 1, ws => ws.flatMap (arrivals beside target) ++ paths left (ws.flatMap (onward beside target))

/-- `rest` takes a trail to the target, over at most `left` levels beyond the next one. -/
inductive Completes : Nat → Trail → List String → Prop
  | arrive {left : Nat} {w : Trail} : target ∈ w.fresh beside → Completes left w [target]
  | goOn {left : Nat} {w : Trail} {v : String} {rest : List String} :
      v ∈ w.fresh beside → v ≠ target → Completes left (w.step v) rest → Completes (left + 1) w (v :: rest)

variable {beside : String → List String} {target : String}

theorem mem_fresh {w : Trail} {v : String} : v ∈ w.fresh beside ↔ v ∈ beside w.last ∧ v ∉ w.visited := by
  simp [fresh]

theorem mem_arrivals {w : Trail} {p : List String} :
    p ∈ w.arrivals beside target ↔ target ∈ w.fresh beside ∧ p = w.path ++ [target] := by
  simp only [arrivals, List.mem_map, List.mem_filter, decide_eq_true_eq]
  constructor
  · rintro ⟨v, ⟨fresh, rfl⟩, rfl⟩
    exact ⟨fresh, path_step w v⟩
  · rintro ⟨fresh, rfl⟩
    exact ⟨target, ⟨fresh, rfl⟩, path_step w target⟩

theorem mem_onward {w x : Trail} :
    x ∈ w.onward beside target ↔ ∃ v, v ∈ w.fresh beside ∧ v ≠ target ∧ x = w.step v := by
  simp only [onward, List.mem_map, List.mem_filter, decide_eq_true_eq]
  constructor
  · rintro ⟨v, ⟨fresh, different⟩, rfl⟩
    exact ⟨v, fresh, different, rfl⟩
  · rintro ⟨v, fresh, different, rfl⟩
    exact ⟨v, ⟨fresh, different⟩, rfl⟩

/-! ### Which paths -/

theorem mem_paths {left : Nat} {ws : List Trail} {p : List String} :
    p ∈ paths beside target left ws ↔ ∃ w ∈ ws, ∃ rest, Completes beside target left w rest ∧ p = w.path ++ rest := by
  induction left generalizing ws with
  | zero =>
    simp only [paths, List.mem_flatMap, mem_arrivals]
    constructor
    · rintro ⟨w, hw, fresh, rfl⟩
      exact ⟨w, hw, _, .arrive fresh, rfl⟩
    · rintro ⟨w, hw, _, ⟨fresh⟩, rfl⟩
      exact ⟨w, hw, fresh, rfl⟩
  | succ left ih =>
    simp only [paths, List.mem_append, ih, List.mem_flatMap, mem_arrivals, mem_onward]
    constructor
    · rintro (⟨w, hw, fresh, rfl⟩ | ⟨_, ⟨w, hw, v, fresh, different, rfl⟩, rest, completes, rfl⟩)
      · exact ⟨w, hw, _, .arrive fresh, rfl⟩
      · exact ⟨w, hw, v :: rest, .goOn fresh different completes, by simp [path_step]⟩
    · rintro ⟨w, hw, _, fresh | ⟨fresh, different, completes⟩, rfl⟩
      · exact .inl ⟨w, hw, fresh, rfl⟩
      · exact .inr ⟨_, ⟨w, hw, _, fresh, different, rfl⟩, _, completes, by simp [path_step]⟩

theorem completes_iff {left : Nat} {w : Trail} {rest : List String} :
    Completes beside target left w rest ↔ List.IsChain (fun u v => v ∈ beside u) (w.last :: rest) ∧ rest.Nodup ∧
      (∀ v ∈ rest, v ∉ w.visited) ∧ rest.getLast? = some target ∧ rest.length ≤ left + 1 := by
  constructor
  · intro completes
    induction completes with
    | arrive fresh =>
      obtain ⟨next, new⟩ := mem_fresh.mp fresh
      simp [next, new]
    | @goOn left w v rest fresh different completes ih =>
      obtain ⟨next, new⟩ := mem_fresh.mp fresh
      obtain ⟨chain, distinct, apart, last, short⟩ := ih
      have unvisited : ∀ u ∈ rest, u ≠ v ∧ u ∉ w.visited := fun u hu => not_or.mp (mt List.mem_cons.mpr (apart u hu))
      refine ⟨.cons_cons next chain, List.nodup_cons.mpr ⟨fun again => (unvisited v again).1 rfl, distinct⟩,
        fun u hu => ?_, ?_, Nat.succ_le_succ short⟩
      · rcases List.mem_cons.mp hu with rfl | hu
        · exact new
        · exact (unvisited u hu).2
      · rw [List.getLast?_cons, last]
        rfl
  · rintro ⟨chain, distinct, apart, last, short⟩
    induction rest generalizing left w with
    | nil => simp at last
    | cons v rest ih =>
      obtain ⟨next, chain⟩ := List.isChain_cons_cons.mp chain
      obtain ⟨once, distinct⟩ := List.nodup_cons.mp distinct
      have fresh : v ∈ w.fresh beside := mem_fresh.mpr ⟨next, apart v List.mem_cons_self⟩
      cases rest with
      | nil =>
        obtain rfl : v = target := by simpa using last
        exact .arrive fresh
      | cons u rest =>
        -- the target is the last vertex, so it cannot be `v` as well
        have ends : target ∈ u :: rest := List.mem_of_getLast? (by simpa using last)
        obtain ⟨left, rfl⟩ : ∃ n, left = n + 1 := ⟨left - 1, by simp only [List.length_cons] at short; omega⟩
        refine .goOn fresh (fun same => once (same ▸ ends)) (ih chain distinct (fun x hx => ?_) (by simpa using last)
          (by simpa using short))
        rw [visited_step, List.mem_cons, not_or]
        exact ⟨fun same => once (same ▸ hx), apart x (List.mem_cons_of_mem v hx)⟩

/-! ### In which order -/

theorem length_of_mem_arrivals {w : Trail} {p : List String} (mem : p ∈ w.arrivals beside target) :
    p.length = w.visited.length + 1 := by
  obtain ⟨-, rfl⟩ := mem_arrivals.mp mem
  rw [List.length_append, length_path, List.length_singleton]

theorem length_of_mem_onward {w x : Trail} (mem : x ∈ w.onward beside target) :
    x.visited.length = w.visited.length + 1 := by
  obtain ⟨v, -, -, rfl⟩ := mem_onward.mp mem
  rfl

theorem length_lt_of_mem_paths {left k : Nat} {ws : List Trail} (level : ∀ w ∈ ws, w.visited.length = k)
    {p : List String} (mem : p ∈ paths beside target left ws) : k < p.length := by
  obtain ⟨w, hw, rest, completes, rfl⟩ := mem_paths.mp mem
  have some : 0 < rest.length := by cases completes <;> simp
  rw [List.length_append, length_path, level w hw]
  omega

section Level

variable {k : Nat} {ws : List Trail}

variable (beside target) in
theorem length_of_level (level : ∀ w ∈ ws, w.visited.length = k) :
    (∀ p ∈ ws.flatMap (arrivals beside target), p.length = k + 1) ∧
      ∀ x ∈ ws.flatMap (onward beside target), x.visited.length = k + 1 := by
  constructor
  · intro p hp
    obtain ⟨w, hw, hp⟩ := List.mem_flatMap.mp hp
    rw [length_of_mem_arrivals hp, level w hw]
  · intro x hx
    obtain ⟨w, hw, hx⟩ := List.mem_flatMap.mp hx
    rw [length_of_mem_onward hx, level w hw]

theorem sorted_paths (left : Nat) (level : ∀ w ∈ ws, w.visited.length = k) :
    (paths beside target left ws).Pairwise (·.length ≤ ·.length) := by
  have arrived (k : Nat) (ws : List Trail) (level : ∀ w ∈ ws, w.visited.length = k) :
      (ws.flatMap (arrivals beside target)).Pairwise (·.length ≤ ·.length) := by
    refine List.pairwise_iff_forall_sublist.mpr fun {p q} sub => ?_
    have lengths := (length_of_level beside target level).1
    rw [lengths p (sub.subset (by simp)), lengths q (sub.subset (by simp))]
  induction left generalizing k ws with
  | zero => exact arrived k ws level
  | succ left ih =>
    obtain ⟨arrive, next⟩ := length_of_level beside target level
    refine List.pairwise_append.mpr ⟨arrived k ws level, ih next, fun p hp q hq => ?_⟩
    rw [arrive p hp]
    exact (length_lt_of_mem_paths next hq).le

variable (distinct : ∀ v, (beside v).Nodup)
include distinct

theorem nodup_arrivals (w : Trail) : (w.arrivals beside target).Nodup := by
  refine List.Nodup.map_on (fun u hu v hv same => ?_) (((distinct w.last).filter _).filter _)
  exact (step_inj (path_inj same)).2

theorem nodup_flatMap_arrivals (once : ws.Nodup) : (ws.flatMap (arrivals beside target)).Nodup := by
  refine List.nodup_flatMap.mpr ⟨fun w _ => nodup_arrivals distinct w, once.imp fun {w x} different p hw hx => ?_⟩
  obtain ⟨-, rfl⟩ := mem_arrivals.mp hw
  obtain ⟨-, same⟩ := mem_arrivals.mp hx
  exact different (path_inj (List.append_cancel_right same))

theorem nodup_flatMap_onward (once : ws.Nodup) : (ws.flatMap (onward beside target)).Nodup := by
  refine List.nodup_flatMap.mpr ⟨fun w _ => ?_, once.imp fun {w x} different y hw hx => ?_⟩
  · exact List.Nodup.map_on (fun u _ v _ same => (step_inj same).2) (((distinct w.last).filter _).filter _)
  · obtain ⟨u, -, -, rfl⟩ := mem_onward.mp hw
    obtain ⟨v, -, -, same⟩ := mem_onward.mp hx
    exact different (step_inj same).1

theorem nodup_paths (left : Nat) (level : ∀ w ∈ ws, w.visited.length = k) (once : ws.Nodup) :
    (paths beside target left ws).Nodup := by
  induction left generalizing k ws with
  | zero => exact nodup_flatMap_arrivals distinct once
  | succ left ih =>
    obtain ⟨arrive, next⟩ := length_of_level beside target level
    refine List.nodup_append.mpr ⟨nodup_flatMap_arrivals distinct once, ih next (nodup_flatMap_onward distinct once),
      fun p hp q hq same => ?_⟩
    have longer := length_lt_of_mem_paths next hq
    rw [← same, arrive p hp] at longer
    exact lt_irrefl _ longer

end Level

/-! ### When there are no more -/

@[simp] theorem paths_nil (left : Nat) : paths beside target left [] = [] := by
  induction left with
  | zero => rfl
  | succ left ih => exact ih

/-- A trail through as many vertices as there are does not go on. -/
theorem fresh_eq_nil {vertices : List String} (within : ∀ u, ∀ v ∈ beside u, v ∈ vertices) {w : Trail}
    (distinct : w.visited.Nodup) (visited : ∀ v ∈ w.visited, v ∈ vertices)
    (all : vertices.length ≤ w.visited.length) : w.fresh beside = [] := by
  refine List.eq_nil_iff_forall_not_mem.mpr fun v hv => ?_
  obtain ⟨next, new⟩ := mem_fresh.mp hv
  have longer : (v :: w.visited).length ≤ vertices.length :=
    (List.Nodup.subperm (List.nodup_cons.mpr ⟨new, distinct⟩) fun u hu => by
      rcases List.mem_cons.mp hu with rfl | hu
      · exact within _ _ next
      · exact visited u hu).length_le
  rw [List.length_cons] at longer
  omega

/-- With as many levels as there are vertices, further levels make no difference. -/
theorem paths_enough {vertices : List String} (within : ∀ u, ∀ v ∈ beside u, v ∈ vertices) {left k : Nat}
    {ws : List Trail} (level : ∀ w ∈ ws, w.visited.length = k ∧ w.visited.Nodup ∧ ∀ v ∈ w.visited, v ∈ vertices)
    (enough : vertices.length ≤ left + k) : paths beside target (left + 1) ws = paths beside target left ws := by
  induction left generalizing k ws with
  | zero =>
    have stuck : ws.flatMap (onward beside target) = [] := by
      refine List.flatMap_eq_nil_iff.mpr fun w hw => ?_
      obtain ⟨length, distinct, visited⟩ := level w hw
      rw [onward, fresh_eq_nil within distinct visited (by omega)]
      rfl
    rw [paths, paths, stuck, paths_nil, List.append_nil]
  | succ left ih =>
    have next : ∀ x ∈ ws.flatMap (onward beside target),
        x.visited.length = k + 1 ∧ x.visited.Nodup ∧ ∀ v ∈ x.visited, v ∈ vertices := by
      intro x hx
      obtain ⟨w, hw, hx⟩ := List.mem_flatMap.mp hx
      obtain ⟨v, fresh, -, rfl⟩ := mem_onward.mp hx
      obtain ⟨next, new⟩ := mem_fresh.mp fresh
      obtain ⟨length, distinct, visited⟩ := level w hw
      refine ⟨by rw [visited_step, List.length_cons, length], List.nodup_cons.mpr ⟨new, distinct⟩, fun u hu => ?_⟩
      rcases List.mem_cons.mp hu with rfl | hu
      · exact within _ _ next
      · exact visited u hu
    show _ ++ paths beside target (left + 1) _ = _ ++ paths beside target left _
    rw [ih next (by omega)]

theorem paths_beyond {vertices : List String} (within : ∀ u, ∀ v ∈ beside u, v ∈ vertices) {left more k : Nat}
    {ws : List Trail} (level : ∀ w ∈ ws, w.visited.length = k ∧ w.visited.Nodup ∧ ∀ v ∈ w.visited, v ∈ vertices)
    (enough : vertices.length ≤ left + k) (further : left ≤ more) :
    paths beside target more ws = paths beside target left ws := by
  induction more, further using Nat.le_induction with
  | base => rfl
  | succ more further ih => rw [paths_enough within level (by omega), ih]

/-! ### From one vertex -/

variable (beside target) in
/-- The paths of at most `hops` edges that the trail at a vertex comes to. -/
def pathsFrom (start : String) : Nat → List (List String)
  | 0 => []
  | left + 1 => paths beside target left [⟨start, []⟩]

theorem length_of_start {start : String} : ∀ w ∈ [Trail.mk start []], w.visited.length = 1 := by simp [visited]

theorem nodup_pathsFrom (distinct : ∀ v, (beside v).Nodup) (start : String) (hops : Nat) :
    (pathsFrom beside target start hops).Nodup := by
  cases hops with
  | zero => exact .nil
  | succ left => exact nodup_paths distinct left length_of_start (List.nodup_singleton _)

theorem sorted_pathsFrom (start : String) (hops : Nat) :
    (pathsFrom beside target start hops).Pairwise (·.length ≤ ·.length) := by
  cases hops with
  | zero => exact .nil
  | succ left => exact sorted_paths left length_of_start

theorem mem_pathsFrom {start : String} {left : Nat} {p : List String} : p ∈ pathsFrom beside target start (left + 1) ↔
    ∃ rest, Completes beside target left ⟨start, []⟩ rest ∧ p = start :: rest := by
  rw [pathsFrom, mem_paths]
  simp [path, visited]

theorem pathsFrom_beyond {vertices : List String} (within : ∀ u, ∀ v ∈ beside u, v ∈ vertices) {start : String}
    (here : start ∈ vertices) {hops more : Nat} (enough : vertices.length ≤ hops) (further : hops ≤ more) :
    pathsFrom beside target start more = pathsFrom beside target start hops := by
  have some := List.length_pos_of_mem here
  obtain ⟨left, rfl⟩ : ∃ n, hops = n + 1 := ⟨hops - 1, by omega⟩
  obtain ⟨beyond, rfl⟩ : ∃ n, more = n + 1 := ⟨more - 1, by omega⟩
  refine paths_beyond within (k := 1) (fun w hw => ?_) enough (by omega)
  obtain rfl := List.mem_singleton.mp hw
  exact ⟨rfl, List.nodup_singleton _, by simpa [visited] using here⟩

end Trail

end GuardedGraph
