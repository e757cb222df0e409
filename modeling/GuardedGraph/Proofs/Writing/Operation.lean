import GuardedGraph.Proofs.Writing.Removing
import GuardedGraph.Proofs.Writing.Saving

/-! The operations on a graph in memory, all that one of them can do, and the graphs that runs of them reach. -/

namespace GuardedGraph

open Store (Memory)
open Commit

inductive Operation
  | save (what : Save) (writer : Authorizations)
  | removeVertex (id : String) (writer : Authorizations)
  | removeEdge (id : String) (writer : Authorizations)
  | hide (type : ElementType) (id : String) (marker : Visibility) (writer : Authorizations)
  | unhide (type : ElementType) (id : String) (marker : Visibility) (writer : Authorizations)
  | declare (name : String) (kind : Value.Kind)

namespace Operation

def commit : Operation → Commit Memory Unit
  | save s a => do let _ ← saving a s
  | removeVertex id a => Commit.removeVertex id a
  | removeEdge id a => Commit.removeEdge id a
  | hide t id marker a => Commit.hide t id marker a
  | unhide t id marker a => Commit.unhide t id marker a
  | declare name kind => ExceptT.mk fun g => (.ok (), g.declare name kind)

/-- Whose authorizations the operation is made with. -/
def writer? : Operation → Option Authorizations
  | save _ a => some a
  | removeVertex _ a => some a
  | removeEdge _ a => some a
  | hide _ _ _ a => some a
  | unhide _ _ _ a => some a
  | declare _ _ => none

def outcome (o : Operation) (g : Graph Memory) : Except Error Unit := (exec o.commit g).1

/-- The graph after the operation, also when it fails. -/
def after (o : Operation) (g : Graph Memory) : Graph Memory := (exec o.commit g).2

/-- All that one operation can do to a graph. -/
inductive Does (g : Graph Memory) : Operation → Graph Memory → Prop
  | refuse {o : Operation} {h : Graph Memory} : g.Grown h → Does g o h
  | write {s : Save} {a : Authorizations} {h : Graph Memory} {v : Revision} :
      Prepared s a g h v → Does g (save s a) (h.written v)
  | removeVertex {id : String} {a : Authorizations} {r : Record} :
      g.writable .vertex id a = .ok r → g.edgesReadable id r.edgeRefs a = .ok () →
        Does g (.removeVertex id a) ((g.withoutEdges (edgeIds r.edgeRefs) (some id)).withoutVertex id)
  | removeEdge {id : String} {a : Authorizations} {r : Record} :
      g.writable .edge id a = .ok r → Does g (.removeEdge id a) (g.withoutEdge id none)
  | hide {t : ElementType} {id : String} {marker : Visibility} {a : Authorizations} {r : Record} :
      g.markable t id marker a = .ok r → Does g (.hide t id marker a) (g.marked r (addMarker r.hidden marker))
  | unhide {t : ElementType} {id : String} {marker : Visibility} {a : Authorizations} {r : Record} :
      g.markable t id marker a = .ok r → Does g (.unhide t id marker a) (g.marked r (dropMarker r.hidden marker))
  | declare (name : String) (kind : Value.Kind) : Does g (.declare name kind) (g.declare name kind)

variable {g : Graph Memory}

theorem exec_save_commit (s : Save) (a : Authorizations) (filed : g.store.Filed) :
    exec (save s a).commit g = match exec (prepare a s) g with
      | (.ok v, h) => ((v.after.encode.shownTo s.type a).map fun _ => (), h.written v)
      | (.error e, h) => (.error e, h) := by
  rw [commit, exec_bind, exec_saving s a filed]
  rcases exec (prepare a s) g with ⟨_ | v, h⟩
  · rfl
  · simp only
    cases v.after.encode.shownTo s.type a <;> rfl

theorem does_after (filed : g.store.Filed) (o : Operation) : o.Does g (o.after g) := by
  unfold after
  cases o with
  | save s a =>
    rw [exec_save_commit s a filed]
    have grown := grows_prepare a s g
    rcases run : exec (prepare a s) g with ⟨_ | v, h⟩
    · rw [run] at grown
      exact .refuse grown
    · exact .write (prepare_ok run)
  | removeVertex id a =>
    rw [commit, exec_removeVertex]
    cases writable : g.writable .vertex id a with
    | error e => exact .refuse (.refl g)
    | ok r =>
      cases readable : g.edgesReadable id r.edgeRefs a with
      | error e =>
        simp only [bind, Except.bind, readable]
        exact .refuse (.refl g)
      | ok _ =>
        simp only [bind, Except.bind, readable]
        exact .removeVertex writable readable
  | removeEdge id a =>
    rw [commit, exec_removeEdge]
    cases writable : g.writable .edge id a with
    | error e => exact .refuse (.refl g)
    | ok r => exact .removeEdge writable
  | hide t id marker a =>
    rw [commit, Commit.hide, exec_mark _ _ _ _ _ filed]
    cases markable : g.markable t id marker a with
    | error e => exact .refuse (.refl g)
    | ok r => exact .hide markable
  | unhide t id marker a =>
    rw [commit, Commit.unhide, exec_mark _ _ _ _ _ filed]
    cases markable : g.markable t id marker a with
    | error e => exact .refuse (.refl g)
    | ok r => exact .unhide markable
  | declare name kind => exact .declare name kind

end Operation

/-- The graph can be reached from one with an empty store. -/
inductive Graph.Reachable : Graph Memory → Prop
  | start (config : Config) (index : Option Search.Index) (names : Names) :
    Reachable (.ofStore .empty config index names)
  | step {g : Graph Memory} (o : Operation) : Reachable g → Reachable (o.after g)

end GuardedGraph
