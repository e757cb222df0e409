import GuardedGraph.Graph.Read
import Mathlib.Data.List.Basic

/-!
Pages of results. Of what a page gives, the sound ones are a cut of all the sound ones (`sound_page`); faults
among them do not count, and stay where they are up to the end of the page (`pageOf_page`). What the results give
one by one is their list (`gives_toList`).
-/

namespace GuardedGraph

namespace Results

variable {α : Type}

/-- Without the first `skip`, and no more than `limit`. -/
def cut (skip : Nat) (limit : Option Nat) (l : List α) : List α :=
  match limit with
  | none => l.drop skip
  | some n => (l.drop skip).take n

def sound (l : List (Except Error α)) : List α := l.filterMap Except.toOption

def fault? : Except Error α → Option Error
  | .ok _ => none
  | .error e => some e

def faults (l : List (Except Error α)) : List Error := l.filterMap fault?

theorem cut_limit_zero (skip : Nat) (l : List α) : cut skip (some 0) l = [] := by
  rw [cut, List.take_zero]

theorem cut_cons (limit : Option Nat) (x : α) (l : List α) (some_left : limit ≠ some 0) :
    cut 0 limit (x :: l) = x :: cut 0 (limit.map (· - 1)) l := by
  rcases limit with _ | _ | n
  · rfl
  · exact absurd rfl some_left
  · rfl

theorem mem_of_mem_cut {skip : Nat} {limit : Option Nat} {x : α} {l : List α} (mem : x ∈ cut skip limit l) : x ∈ l := by
  cases limit with
  | none => exact List.mem_of_mem_drop mem
  | some n => exact List.mem_of_mem_drop (List.mem_of_mem_take mem)

theorem sound_page (skip : Nat) (limit : Option Nat) (l : List (Except Error α)) :
    sound (page skip limit l) = cut skip limit (sound l) := by
  induction l generalizing skip limit with
  | nil => rcases limit with _ | n <;> simp [page_nil, sound, cut]
  | cons x l ih =>
    by_cases full : limit = some 0
    · rw [full, page_limit_zero, cut_limit_zero]
      rfl
    · cases x with
      | error e =>
        rw [page, if_neg full]
        exact ih skip limit
      | ok v =>
        cases skip with
        | zero =>
          rw [page, if_neg full]
          exact (congrArg (v :: ·) (ih 0 _)).trans (cut_cons limit v _ full).symm
        | succ skip => exact ih skip limit

/-- What is skipped are sound results only. -/
theorem faults_page (skip : Nat) (l : List (Except Error α)) : faults (page skip none l) = faults l := by
  induction l generalizing skip with
  | nil => rw [page_nil]
  | cons x l ih =>
    cases x with
    | error e => exact congrArg (e :: ·) (ih skip)
    | ok v =>
      cases skip with
      | zero => exact ih 0
      | succ skip => exact ih skip

theorem page_part (skip : Nat) (limit : Option Nat) (l : List (Except Error α)) :
    page skip limit l <+: page skip none l := by
  induction l generalizing skip limit with
  | nil => simp only [page_nil, List.prefix_rfl]
  | cons x l ih =>
    by_cases full : limit = some 0
    · rw [full, page_limit_zero]
      exact List.nil_prefix
    · cases x with
      | error e =>
        rw [page, if_neg full]
        exact (List.prefix_cons_inj _).mpr (ih skip limit)
      | ok v =>
        cases skip with
        | zero =>
          rw [page, if_neg full]
          exact (List.prefix_cons_inj _).mpr (ih 0 _)
        | succ skip => exact ih skip limit

/-- No less will do for as many sound results as there may be. -/
theorem page_least {skip n : Nat} {l m : List (Except Error α)} (part : m <+: page skip none l)
    (enough : (sound m).length = n) : page skip (some n) l <+: m := by
  induction l generalizing skip n m with
  | nil =>
    rw [page_nil]
    exact List.nil_prefix
  | cons x l ih =>
    cases m with
    | nil =>
      obtain rfl : 0 = n := enough
      simp only [page_limit_zero, List.prefix_rfl]
    | cons y m =>
      by_cases full : n = 0
      · rw [full, page_limit_zero]
        exact List.nil_prefix
      · have left : some n ≠ some 0 := fun same => full (Option.some.inj same)
        cases x with
        | error e =>
          obtain ⟨rfl, rest⟩ := List.cons_prefix_cons.mp (show y :: m <+: .error e :: page skip none l from part)
          rw [page, if_neg left]
          exact (List.prefix_cons_inj _).mpr (ih rest enough)
        | ok v =>
          cases skip with
          | zero =>
            obtain ⟨rfl, rest⟩ := List.cons_prefix_cons.mp (show y :: m <+: .ok v :: page 0 none l from part)
            rw [page, if_neg left]
            refine (List.prefix_cons_inj _).mpr (ih rest ?_)
            rw [← enough]
            rfl
          | succ skip => exact ih part enough

theorem page_whole_or_full (skip n : Nat) (l : List (Except Error α)) :
    page skip (some n) l = page skip none l ∨ (sound (page skip (some n) l)).length = n := by
  induction l generalizing skip n with
  | nil =>
    rw [page_nil, page_nil]
    exact .inl rfl
  | cons x l ih =>
    cases n with
    | zero =>
      rw [page_limit_zero]
      exact .inr rfl
    | succ n =>
      have left : some (n + 1) ≠ some 0 := nofun
      cases x with
      | error e =>
        rw [page, if_neg left]
        exact (ih skip (n + 1)).imp_left (congrArg (Except.error e :: ·))
      | ok v =>
        cases skip with
        | zero =>
          rw [page, if_neg left]
          exact (ih 0 n).imp (congrArg (Except.ok v :: ·)) (congrArg (· + 1))
        | succ skip => exact ih skip (n + 1)

/-- Of all results, the first `skip` sound ones are left out, and those behind the last sound one that there is to be;
all faults in between are there. -/
structure PageOf (skip : Nat) (limit : Option Nat) (all l : List (Except Error α)) : Prop where
  cut : sound l = cut skip limit (sound all)
  part : l <+: page skip none all
  faults : faults l <+: faults all
  unlimited : limit = none → Results.faults l = Results.faults all
  full : ∀ n, limit = some n → l = page skip none all ∨ (sound l).length = n
  least : ∀ n m, limit = some n → m <+: page skip none all → (sound m).length = n → l <+: m

theorem pageOf_page (skip : Nat) (limit : Option Nat) (l : List (Except Error α)) :
    PageOf skip limit l (page skip limit l) where
  cut := sound_page skip limit l
  part := page_part skip limit l
  faults := by
    have part := (page_part skip limit l).filterMap fault?
    rwa [← Results.faults, ← Results.faults, faults_page] at part
  unlimited none := none ▸ faults_page skip l
  full n some := some ▸ page_whole_or_full skip n l
  least n m some part enough := some ▸ page_least part enough

/-- Pages of one size, one behind the other, are all that comes before the next of them. -/
theorem flatMap_pages (size n : Nat) (l : List α) :
    (List.range n).flatMap (fun k => cut (k * size) (some size) l) = l.take (n * size) := by
  induction n with
  | zero => simp
  | succ n ih =>
    rw [List.range_succ, List.flatMap_append, ih, Nat.succ_mul, List.take_add]
    simp [cut]

/-! ### One by one -/

variable {t : ElementType}

/-- What is given by asking for the next result, until there is none. -/
inductive Gives (found : String → Option Record) : Results t → List (Except Error (View t)) → Prop
  | done {r : Results t} : (r.next found).1 = none → Gives found r []
  | more {r : Results t} {x : Except Error (View t)} {l : List (Except Error (View t))} :
    (r.next found).1 = some x → Gives found (r.next found).2 l → Gives found r (x :: l)

theorem gives_toList (found : String → Option Record) (r : Results t) : Gives found r (r.toList found) := by
  generalize all : r.toList found = l
  induction l generalizing r with
  | nil =>
    rw [toList_next] at all
    cases next : (r.next found).1 with
    | none => exact .done next
    | some x => simp [next] at all
  | cons x l ih =>
    rw [toList_next] at all
    cases next : (r.next found).1 with
    | none => simp [next] at all
    | some y =>
      simp only [next, Option.toList_some, Option.isSome_some, if_true, List.singleton_append, List.cons.injEq] at all
      obtain ⟨rfl, rest⟩ := all
      exact .more next (ih _ rest)

theorem Gives.unique {found : String → Option Record} {r : Results t} {l m : List (Except Error (View t))}
    (hl : r.Gives found l) (hm : r.Gives found m) : l = m := by
  induction hl generalizing m with
  | done none =>
    cases hm with
    | done _ => rfl
    | more some _ => simp [none] at some
  | more first _ ih =>
    cases hm with
    | done none => simp [none] at first
    | more second rest =>
      obtain rfl := Option.some.inj (first.symm.trans second)
      exact congrArg _ (ih rest)

end Results

end GuardedGraph
