import GuardedGraph.Proofs.Writing.Operation

/-! Every operation leaves each record filed under its own kind and id (`filed_after`). -/

namespace GuardedGraph

open Store (Memory)

namespace Store.Memory.Filed

variable {m : Memory}

theorem discardAll (filed : m.Filed) (keys : List String) : (keys.foldl Memory.discard m).Filed := by
  intro t id r found
  rw [get?_discardAll] at found
  exact filed t id r found

theorem rewritten (filed : m.Filed) (v : Revision) : (Graph.rewritten m v).Filed := by
  have kept := (filed.put v.after.encode).discardAll
    (v.base.keptKeys.filter fun key => !v.after.keptKeys.contains key)
  unfold Graph.rewritten
  cases v.after.endpoints with
  | none => exact kept
  | some e =>
    simp only [Option.elim, Graph.linked]
    split
    · exact (kept.mapRefs _ _).mapRefs _ _
    · split
      · exact kept.mapEnds _ _
      · exact kept

end Store.Memory.Filed

variable {g : Graph Memory}

theorem filed_marked (filed : g.store.Filed) (r : Record) (hidden : List Visibility) :
    (g.marked r hidden).store.Filed := by
  unfold Graph.marked
  cases r.endpoints with
  | none => exact filed.put _
  | some e => exact (filed.put _).mapEnds _ _

theorem filed_withoutEdge (filed : g.store.Filed) (id : String) (exceptAt : Option String) :
    (g.withoutEdge id exceptAt).store.Filed := by
  unfold Graph.withoutEdge
  split
  · exact filed
  · rename_i r _
    refine Memory.Filed.discardAll ?_ r.keptKeys
    cases r.endpoints with
    | none => exact filed.delete _ _
    | some e => exact (filed.delete _ _).dropRefs _ _ _

theorem filed_withoutEdges (filed : g.store.Filed) (ids : List String) (exceptAt : Option String) :
    (g.withoutEdges ids exceptAt).store.Filed := by
  induction ids generalizing g with
  | nil => exact filed
  | cons id ids ih => exact ih (filed_withoutEdge filed id exceptAt)

theorem filed_withoutVertex (filed : g.store.Filed) (id : String) : (g.withoutVertex id).store.Filed := by
  unfold Graph.withoutVertex
  split
  · exact filed
  · rename_i r _
    exact (filed.delete .vertex id).discardAll r.keptKeys

theorem filed_after (filed : g.store.Filed) (o : Operation) : (o.after g).store.Filed := by
  have does := o.does_after filed
  generalize o.after g = h at does
  cases does with
  | refuse grown => exact grown.filed filed
  | @write s a mid v prepared =>
    rw [show (mid.written v).store = Graph.rewritten mid.store v from Commit.indexed_store _ _]
    exact (prepared.grown.filed filed).rewritten v
  | removeVertex => exact filed_withoutVertex (filed_withoutEdges filed _ _) _
  | removeEdge => exact filed_withoutEdge filed _ _
  | hide => exact filed_marked filed _ _
  | unhide => exact filed_marked filed _ _
  | declare => exact filed

end GuardedGraph
