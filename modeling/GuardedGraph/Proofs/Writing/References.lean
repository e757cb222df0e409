import GuardedGraph.Store.Memory

/-! Changing the references of edges at vertices of a store in memory. -/

namespace GuardedGraph

def Record.mapRefs (f : List EdgeRef → List EdgeRef) (r : Record) : Record := { r with edgeRefs := f r.edgeRefs }

namespace Record

theorem map_mapRefs_id (o : Option Record) : o.map (mapRefs fun refs => refs) = o := by cases o <;> rfl

theorem mapRefs_comp (f g : List EdgeRef → List EdgeRef) : mapRefs f ∘ mapRefs g = mapRefs fun refs => f (g refs) := rfl

end Record

/-- What is changed in the references of one edge is not changed again. -/
theorem map_own_twice (edge : String) (f : EdgeRef → EdgeRef) (same : ∀ r, (f r).edge = r.edge)
    (twice : ∀ r, f (f r) = f r) (refs : List EdgeRef) :
    (refs.map fun r => if r.edge = edge then f r else r).map (fun r => if r.edge = edge then f r else r) =
      refs.map fun r => if r.edge = edge then f r else r := by
  rw [List.map_map]
  refine List.map_congr_left fun r _ => ?_
  simp only [Function.comp_apply]
  split
  · rename_i own
    rw [if_pos ((same r).trans own), twice]
  · rfl

namespace Store.Memory

def mapRefs (m : Memory) (vertex : String) (f : List EdgeRef → List EdgeRef) : Memory :=
  match m.get? .vertex vertex with
  | none => m
  | some r => m.put (r.mapRefs f)

def mapEnds (m : Memory) (endpoints : Endpoints) (f : List EdgeRef → List EdgeRef) : Memory :=
  (m.mapRefs endpoints.source f).mapRefs endpoints.target f

/-- Every record is filed under its own kind and id. -/
def Filed (m : Memory) : Prop := ∀ t id r, m.get? t id = some r → r.type = t ∧ r.id = id

variable {m : Memory} {t : ElementType} {id : String}

theorem filed_empty : empty.Filed := by
  intro t id r found
  cases t <;> exact absurd found (by simp [get?, empty, PerType.get])

theorem Filed.put (filed : m.Filed) (r : Record) : (m.put r).Filed := by
  intro t id s found
  rw [get?_put] at found
  split at found
  · rename_i own
    obtain rfl := Option.some.inj found
    exact own
  · exact filed t id s found

theorem Filed.delete (filed : m.Filed) (u : ElementType) (j : String) : (m.delete u j).Filed := by
  intro t id s found
  rw [get?_delete] at found
  split at found
  · exact absurd found (by simp)
  · exact filed t id s found

theorem Filed.mapRefs (filed : m.Filed) (vertex : String) (f : List EdgeRef → List EdgeRef) :
    (m.mapRefs vertex f).Filed := by
  unfold Memory.mapRefs
  split
  · exact filed
  · exact filed.put _

theorem Filed.mapEnds (filed : m.Filed) (endpoints : Endpoints) (f : List EdgeRef → List EdgeRef) :
    (m.mapEnds endpoints f).Filed := (filed.mapRefs _ f).mapRefs _ f

theorem get?_edge_mapRefs (filed : m.Filed) (vertex : String) (f : List EdgeRef → List EdgeRef) (id : String) :
    (m.mapRefs vertex f).get? .edge id = m.get? .edge id := by
  unfold mapRefs
  split
  · rfl
  · rename_i r found
    rw [get?_put, if_neg]
    intro own
    exact absurd ((filed _ _ _ found).1.symm.trans own.1) (by simp)

theorem get?_vertex_mapRefs (filed : m.Filed) (vertex : String) (f : List EdgeRef → List EdgeRef) (id : String) :
    (m.mapRefs vertex f).get? .vertex id =
      (m.get? .vertex id).map (Record.mapRefs fun refs => if id = vertex then f refs else refs) := by
  unfold mapRefs
  split
  · rename_i missing
    by_cases own : id = vertex
    · rw [own, missing]
      rfl
    · simp only [own, if_false, Record.map_mapRefs_id]
  · rename_i r found
    obtain ⟨type, own_id⟩ := filed _ _ _ found
    rw [get?_put]
    by_cases own : id = vertex
    · rw [if_pos ⟨type, own_id.trans own.symm⟩, own, found]
      simp only [if_true]
      rfl
    · rw [if_neg fun h => own (h.2.symm.trans own_id)]
      simp only [own, if_false, Record.map_mapRefs_id]

theorem get?_edge_mapEnds (filed : m.Filed) (endpoints : Endpoints) (f : List EdgeRef → List EdgeRef) (id : String) :
    (m.mapEnds endpoints f).get? .edge id = m.get? .edge id := by
  rw [mapEnds, get?_edge_mapRefs (filed.mapRefs _ f), get?_edge_mapRefs filed]

/-- A change that is the same made twice reaches each endpoint once, also that of a loop. -/
theorem get?_vertex_mapEnds (filed : m.Filed) (endpoints : Endpoints) {f : List EdgeRef → List EdgeRef}
    (twice : ∀ refs, f (f refs) = f refs) (id : String) :
    (m.mapEnds endpoints f).get? .vertex id =
      (m.get? .vertex id).map (Record.mapRefs fun refs => if id ∈ endpoints.toList then f refs else refs) := by
  rw [mapEnds, get?_vertex_mapRefs (filed.mapRefs _ f), get?_vertex_mapRefs filed, Option.map_map, Record.mapRefs_comp]
  congr 2
  funext refs
  simp only [Endpoints.toList, List.mem_cons, List.not_mem_nil, or_false]
  by_cases source : id = endpoints.source
  · rw [if_pos source, twice, ite_self, if_pos (Or.inl source)]
  · rw [if_neg source]
    simp only [source, false_or]

end Store.Memory

end GuardedGraph
