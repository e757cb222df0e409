import GuardedGraph.Record.Codec
import GuardedGraph.Store.Basic
import GuardedGraph.Text.Quoted

/-!
Results of reads: the views that one reader has of the records under a cursor, found one by one. Taking
the results one by one gives the same as taking them all (`toList_next`).
-/

namespace GuardedGraph

open Store (Cursor Pending)

/-- The views that `reader` has of the elements under a cursor, as far as `keep` lets them through. The
next `skip` of them are passed over, and no more than `remaining` follow. -/
structure Results (t : ElementType) where
  cursor : Cursor
  reader : Authorizations
  keep : View t → Bool
  skip : Nat
  remaining : Option Nat

namespace Results

variable {t : ElementType}

def all (cursor : Cursor) (reader : Authorizations) : Results t := ⟨cursor, reader, fun _ => true, 0, none⟩

/-- The result that a pending item gives, if any; `found` looks up the stored records. -/
def outcome (found : String → Option Record) (r : Results t) (p : Pending) : Option (Except Error (View t)) :=
  match Cursor.reach found p with
  | none => none
  | some (.error e) => some (.error e)
  | some (.ok record) =>
    match record.view? t r.reader with
    | .error e => some (.error e)
    | .ok none => none
    | .ok (some v) => if r.keep v then some (.ok v) else none

/-- The results with what is pending and what is to be skipped put anew. -/
def goOn (r : Results t) (pending : List Pending) (skip : Nat) : Results t :=
  { r with cursor := { r.cursor with pending }, skip }

/-- The first result behind those to be skipped. Faults are never skipped, and do not count. -/
def advance (found : String → Option Record) (r : Results t) :
    List Pending → Nat → Option (Except Error (View t)) × Results t
  | [], skip => (none, r.goOn [] skip)
  | p :: rest, skip =>
    match r.outcome found p, skip with
    | none, skip => advance found r rest skip
    | some (.error e), skip => (some (.error e), r.goOn rest skip)
    | some (.ok v), 0 => (some (.ok v), { r.goOn rest 0 with remaining := r.remaining.map (· - 1) })
    | some (.ok _), skip + 1 => advance found r rest skip

def next (found : String → Option Record) (r : Results t) : Option (Except Error (View t)) × Results t :=
  if r.remaining = some 0 then (none, r) else r.advance found r.cursor.pending r.skip

/-- A page of results: behind the first `skip`, and no more than `limit`. -/
def page {α : Type} : Nat → Option Nat → List (Except Error α) → List (Except Error α)
  | _, _, [] => []
  | skip, limit, .error e :: rest => if limit = some 0 then [] else .error e :: page skip limit rest
  | 0, limit, .ok v :: rest => if limit = some 0 then [] else .ok v :: page 0 (limit.map (· - 1)) rest
  | skip + 1, limit, .ok _ :: rest => page skip limit rest

def toList (found : String → Option Record) (r : Results t) : List (Except Error (View t)) :=
  page r.skip r.remaining (r.cursor.pending.filterMap (r.outcome found))

def debug (r : Results t) : String :=
  "ResultIter \x7b authorizations: Authorizations \x7b tokens: \x7b" ++
    ", ".intercalate (r.reader.toList.map Text.quoted) ++ "\x7d \x7d, skip: " ++ toString r.skip ++ ", remaining: " ++
    (match r.remaining with
      | none => "None"
      | some n => "Some(" ++ toString n ++ ")") ++ ", .. \x7d"

/-! ### One by one -/

theorem page_limit_zero {α : Type} (skip : Nat) (l : List (Except Error α)) : page skip (some 0) l = [] := by
  induction l generalizing skip with
  | nil => cases skip <;> rfl
  | cons x l ih => cases x <;> cases skip <;> simp [page, ih]

theorem page_nil {α : Type} (skip : Nat) (limit : Option Nat) :
    page skip limit ([] : List (Except Error α)) = [] := by
  cases skip <;> rfl

/-- How `advance` splits a page into its first result and the others. -/
theorem page_advance {found : String → Option Record} {r : Results t} (limit : r.remaining ≠ some 0)
    (pending : List Pending) (skip : Nat) :
    page skip r.remaining (pending.filterMap (r.outcome found)) =
      (r.advance found pending skip).1.toList ++
        (if (r.advance found pending skip).1.isSome then (r.advance found pending skip).2.toList found else []) := by
  induction pending generalizing skip with
  | nil => simp [advance, page_nil]
  | cons p rest ih =>
    rw [List.filterMap_cons]
    cases h : r.outcome found p with
    | none => simpa only [advance, h] using ih skip
    | some x =>
      cases x with
      | error e =>
        cases skip with
        | zero => simp only [advance, h, page, if_neg limit]; rfl
        | succ n => simp only [advance, h, page, if_neg limit]; rfl
      | ok v =>
        cases skip with
        | zero => simp only [advance, h, page, if_neg limit]; rfl
        | succ n => simpa only [advance, h, page] using ih n

theorem toList_next (found : String → Option Record) (r : Results t) :
    r.toList found =
      (r.next found).1.toList ++ (if (r.next found).1.isSome then (r.next found).2.toList found else []) := by
  by_cases h : r.remaining = some 0
  · simp [next, h, toList, page_limit_zero]
  · rw [next, if_neg h, toList]
    exact page_advance h _ _

end Results

end GuardedGraph
