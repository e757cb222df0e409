import GuardedGraph.Graph.Adjacent

/-!
Paths between two vertices, found on demand and shortest first. The search goes level by level: all
trails of a level have the same length, and what extends them makes up the next level.
-/

namespace GuardedGraph

open Store (Backend)

/-- A walk from the start of a search that has come to `last` and visited no vertex twice. -/
structure Trail where
  last : String
  /-- The vertices before the last one, the latest first. -/
  before : List String

namespace Trail

def visited (w : Trail) : List String := w.last :: w.before

def path (w : Trail) : List String := w.visited.reverse

def step (w : Trail) (vertex : String) : Trail := ⟨vertex, w.visited⟩

end Trail

/-- A search for the paths from `start` to `target` of at most `hops` edges, as far as it has come. -/
structure PathSearch where
  start : String
  target : String
  hops : Nat
  reader : Authorizations
  started : Bool
  /-- Paths that have been found and not been given. -/
  found : List (List String)
  /-- Trails to be extended. -/
  level : List Trail
  deeper : List Trail
  /-- How many levels may follow this one. -/
  left : Nat
  /-- The vertices next to those that trails have left. -/
  known : Table (List String)

namespace PathSearch

def between (start target : String) (hops : Nat) (reader : Authorizations) : PathSearch :=
  ⟨start, target, hops, reader, false, [], [], [], hops - 1, .empty⟩

variable {σ : Type} [Backend σ]

/-- The search at its first trail, if there is anything to search. -/
def begin (g : Graph σ) (s : PathSearch) : Except Error PathSearch := do
  if (← g.get? .vertex s.start s.reader).isNone then return s
  if (← g.get? .vertex s.target s.reader).isNone then return s
  if s.start = s.target then return { s with found := [[s.start]] }
  if s.hops = 0 then return s
  return { s with level := [⟨s.start, []⟩] }

/-- The other vertices that visible edges lead to, each once. -/
def neighbours (g : Graph σ) (s : PathSearch) (vertex : String) : Except Error (List String) := do
  match s.known.get? vertex with
  | some others => return others
  | none =>
    match ← g.get? .vertex vertex s.reader with
    | none => return []
    | some v =>
      let edges ← g.fetchAll .edge (edgeIds (Vertex.edgeRefs v)) s.reader
      return (othersAcross v.id edges).filter (· ≠ vertex)

/-- The search with a trail extended by every neighbour that it has not visited. -/
def extend (g : Graph σ) (s : PathSearch) (w : Trail) : Except Error PathSearch := do
  let others ← s.neighbours g w.last
  let fresh := others.filter (!w.visited.contains ·)
  return { s with
    known := s.known.insert w.last others
    found := s.found ++ (fresh.filter (· = s.target)).map fun vertex => (w.step vertex).path
    deeper := if s.left = 0 then s.deeper else s.deeper ++ (fresh.filter (· ≠ s.target)).map w.step }

def descend (s : PathSearch) (left : Nat) : PathSearch := { s with level := s.deeper, deeper := [], left }

/-! ### One by one -/

/-- Extends trails until a path is found. -/
def sweep (g : Graph σ) : List Trail → PathSearch → Except Error Unit × PathSearch
  | [], s => (.ok (), { s with level := [] })
  | w :: ws, s =>
    match s.extend g w with
    | .error e => (.error e, { s with level := ws })
    | .ok s => if s.found.isEmpty then sweep g ws s else (.ok (), { s with level := ws })

/-- Sweeps level after level, as many as are `left`, until a path is found. -/
def seek (g : Graph σ) (left : Nat) (s : PathSearch) : Except Error (Option (List String)) × PathSearch :=
  match sweep g s.level s with
  | (.error e, s) => (.error e, s)
  | (.ok (), s) =>
    match s.found, left with
    | p :: ps, _ => (.ok (some p), { s with found := ps })
    | [], 0 => (.ok none, s)
    | [], left + 1 => if s.deeper.isEmpty then (.ok none, s) else seek g left (s.descend left)

/-- The next path, and the search that goes on behind it. After a fault the search goes on behind the
trail that it could not extend. -/
def next (g : Graph σ) (s : PathSearch) : Except Error (Option (List String)) × PathSearch :=
  let begun := if s.started then .ok s else s.begin g
  match begun with
  | .error e => (.error e, { s with started := true })
  | .ok s =>
    let s := { s with started := true }
    match s.found with
    | p :: ps => (.ok (some p), { s with found := ps })
    | [] => s.seek g s.left

/-! ### All at once -/

/-- Extends all trails, level after level, and gives every path found. -/
def exhaust (g : Graph σ) (left : Nat) (s : PathSearch) : Except Error (List (List String)) := do
  let s ← s.level.foldlM (extend g) s
  match left with
  | 0 => return s.found
  | left + 1 => if s.deeper.isEmpty then return s.found else exhaust g left (s.descend left)

def rest (g : Graph σ) (s : PathSearch) : Except Error (List (List String)) := do
  let s ← if s.started then .ok s else s.begin g
  s.exhaust g s.left

end PathSearch

end GuardedGraph
