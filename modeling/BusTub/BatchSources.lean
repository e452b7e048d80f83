import Mathlib.Data.List.Infix

/-!
Components that are started and then asked for rows, a batch at a time: what a
sequence of calls answers, when two states answer alike, and when the answers
hand out one list of rows whatever the sizes asked for. Nothing here names a
program. A call that does not come back answers `none`.
-/

namespace BusTub

/-- The rows of one answer and their ids stand in two lists. -/
structure Batch (Row Rid : Type) where
  status : Bool
  tuples : List Row
  rids : List Rid

structure BatchSource (Row Rid : Type) where
  State : Type
  fresh : State
  init : State → Option State
  next : State → Nat → Option (Batch Row Rid × State)

variable {Row Rid : Type}

namespace Batch

def rows (batch : Batch Row Rid) : List (Row × Rid) := batch.tuples.zip batch.rids

/-- Rows and ids that were pushed together. -/
def pushed (status : Bool) (out : List (Row × Rid)) : Batch Row Rid :=
  ⟨status, out.map Prod.fst, out.map Prod.snd⟩

@[simp] theorem pushed_rows (status : Bool) (out : List (Row × Rid)) :
    (pushed status out).rows = out := by
  simpa [pushed, rows, List.unzip_eq_map] using List.zip_unzip out

@[simp] theorem pushed_status (status : Bool) (out : List (Row × Rid)) :
    (pushed status out).status = status := rfl

theorem map_rows {batch : Batch Row Rid} (together : batch.rids.length = batch.tuples.length) :
    batch.rows.map Prod.fst = batch.tuples :=
  List.map_fst_zip (by omega)

theorem rows_length {batch : Batch Row Rid} (together : batch.rids.length = batch.tuples.length) :
    batch.rows.length = batch.tuples.length := by
  rw [← map_rows together, List.length_map]

end Batch

/-- One answer out of `rest`, the rows not handed out yet; `left` are those that
remain after it. It says no exactly when nothing was left. -/
structure Answers (rest : List (Row × Rid)) (batch : Batch Row Rid)
    (left : List (Row × Rid)) : Prop where
  together : batch.rids.length = batch.tuples.length
  refuses : batch.status = false ↔ rest = []
  brings : batch.status = true → batch.tuples ≠ []
  split : rest = batch.rows ++ left

theorem answers_pushed {rest out left : List (Row × Rid)} (split : rest = out ++ left)
    (ends : out = [] → left = []) : Answers rest (Batch.pushed (!out.isEmpty) out) left where
  together := by simp [Batch.pushed]
  refuses := by
    constructor
    · intro refused
      have empty : out = [] := by simpa using refused
      simp [split, empty, ends empty]
    · intro empty
      have both : out = [] ∧ left = [] := by simpa [empty] using split.symm
      simp [both.1]
  brings := by
    intro brought
    simpa [Batch.pushed] using brought
  split := by simpa using split

namespace BatchSource

variable (source : BatchSource Row Rid) {first second : source.State} {state : source.State}
  {strict : Bool} {rest : List (Row × Rid)} {batch : Batch Row Rid} {rows others : List (Row × Rid)}

/-- What a sequence of calls answers. -/
def answers : source.State → List Nat → Option (List (Batch Row Rid))
  | _, [] => some []
  | state, size :: sizes => do
      let (batch, after) ← source.next state size
      let batches ← answers after sizes
      return batch :: batches

/-- The states that starting it and asking it lead to. -/
inductive Reached : source.State → Prop where
  | fresh : Reached source.fresh
  | init {before after : source.State} : Reached before →
      source.init before = some after → Reached after
  | next {before after : source.State} {size : Nat} {batch : Batch Row Rid} :
      Reached before → source.next before size = some (batch, after) → Reached after

/-- Two states that no sequence of calls tells apart. -/
def Alike (first second : source.State) : Prop :=
  ∀ sizes, source.answers first sizes = source.answers second sizes

/-- Results with the same answer and states that are still related. -/
def Twins {State Answer : Type} (Same : State → State → Prop) :
    Option (Answer × State) → Option (Answer × State) → Prop :=
  Option.Rel fun first second => first.1 = second.1 ∧ Same first.2 second.2

/-- Started from any state it answers as it does when it is started first. -/
def Restarts : Prop :=
  ∀ state, source.Reached state →
    Option.Rel source.Alike (source.init state) (source.init source.fresh)

/-- Two sequences of calls bring the same rows whatever batches they come in. -/
def SameRows (first second : source.State) : Prop :=
  ∀ sizes, (source.answers first sizes).map (List.flatMap Batch.rows) =
    (source.answers second sizes).map (List.flatMap Batch.rows)

/-- The answers to calls of these sizes hand out `rest`, in order; with `strict`
none has more rows than it was asked for. -/
def Meets (strict : Bool) : source.State → List (Row × Rid) → List Nat → Prop
  | _, _, [] => True
  | state, rest, size :: sizes => ∃ batch after left, source.next state size = some (batch, after) ∧
      Answers rest batch left ∧ (strict = true → batch.tuples.length ≤ size) ∧
        Meets strict after left sizes

def Delivers (strict : Bool) (state : source.State) (rest : List (Row × Rid)) : Prop :=
  ∀ sizes, (∀ size ∈ sizes, 0 < size) → source.Meets strict state rest sizes

/-- `while (source->Next(&tuples, &rids, size))`, collecting the rows. -/
def drain (size : Nat) : Nat → source.State → Option (List Row × source.State)
  | 0, _ => none
  | fuel + 1, state => do
      let (batch, after) ← source.next state size
      if batch.status then
        let (rows, final) ← drain size fuel after
        return (batch.tuples ++ rows, final)
      else return ([], after)

section Relations

theorem rel_bind {A B C D : Type} {Same : A → B → Prop} {Next : C → D → Prop} {first : Option A}
    {second : Option B} {continueFirst : A → Option C} {continueSecond : B → Option D}
    (related : Option.Rel Same first second)
    (continues : ∀ a b, Same a b → Option.Rel Next (continueFirst a) (continueSecond b)) :
    Option.Rel Next (first >>= continueFirst) (second >>= continueSecond) := by
  cases related with
  | none => exact Option.Rel.none
  | some same => exact continues _ _ same

theorem rel_map {A B C D : Type} {Same : A → B → Prop} {Next : C → D → Prop} {first : Option A}
    {second : Option B} {front : A → C} {back : B → D} (related : Option.Rel Same first second)
    (maps : ∀ a b, Same a b → Next (front a) (back b)) :
    Option.Rel Next (first.map front) (second.map back) := by
  cases related with
  | none => exact Option.Rel.none
  | some same => exact Option.Rel.some (maps _ _ same)

theorem rel_some_right {A B : Type} {Same : A → B → Prop} {first : Option A} {second : B}
    (related : Option.Rel Same first (some second)) :
    ∃ found, first = some found ∧ Same found second := by
  cases related with
  | some same => exact ⟨_, rfl, same⟩

theorem rel_imp {A : Type} {Same Like : A → A → Prop} (implies : ∀ a b, Same a b → Like a b)
    {first second : Option A}
    (related : Option.Rel Same first second) : Option.Rel Like first second := by
  cases related with
  | none => exact Option.Rel.none
  | some same => exact Option.Rel.some (implies _ _ same)

theorem rel_refl {A : Type} {Same : A → A → Prop} (refl : ∀ a, Same a a) (value : Option A) :
    Option.Rel Same value value := by
  cases value with
  | none => exact Option.Rel.none
  | some a => exact Option.Rel.some (refl a)

end Relations

variable {source}

theorem alike_refl (state : source.State) : source.Alike state state := fun _ => rfl

theorem alike_symm (alike : source.Alike first second) :
    source.Alike second first :=
  fun sizes => (alike sizes).symm

theorem alike_trans {first second third : source.State} (front : source.Alike first second)
    (back : source.Alike second third) : source.Alike first third :=
  fun sizes => (front sizes).trans (back sizes)

theorem alike_next (alike : source.Alike first second) (size : Nat) :
    Twins source.Alike (source.next first size) (source.next second size) := by
  have once := alike [size]
  have further := fun sizes => alike (size :: sizes)
  simp only [answers] at once further
  cases firstNext : source.next first size with
  | none =>
      cases secondNext : source.next second size with
      | none => exact Option.Rel.none
      | some answered => simp [firstNext, secondNext] at once
  | some answer =>
      cases secondNext : source.next second size with
      | none => simp [firstNext, secondNext] at once
      | some answered =>
          have same : answer.1 = answered.1 := by simpa [firstNext, secondNext] using once
          apply Option.Rel.some
          refine ⟨same, fun sizes => ?_⟩
          have rest := further sizes
          simp only [firstNext, secondNext, Option.bind_eq_bind, Option.bind_some, same] at rest
          cases front : source.answers answer.2 sizes <;>
            cases back : source.answers answered.2 sizes <;>
            simp_all

/-- States that a relation keeps together answer alike. -/
theorem alike_of (Same : source.State → source.State → Prop)
    (closed : ∀ first second, Same first second → ∀ size, Twins Same (source.next first size)
      (source.next second size)) (same : Same first second) : source.Alike first second := by
  intro sizes
  induction sizes generalizing first second with
  | nil => rfl
  | cons size sizes ih =>
      have related := closed first second same size
      simp only [answers]
      generalize source.next first size = front, source.next second size = back at related ⊢
      cases related with
      | none => rfl
      | some related => simp only [Option.bind_eq_bind, Option.bind_some, related.1, ih related.2]

/-- Two states of a source that were reached and answer alike. -/
structure Paired (first second : source.State) : Prop where
  alike : source.Alike first second
  left : source.Reached first
  right : source.Reached second

theorem paired_next (paired : source.Paired first second) (size : Nat) :
    Twins source.Paired (source.next first size) (source.next second size) := by
  have related := alike_next paired.alike size
  have left (batch : Batch Row Rid) (after : source.State) :
      source.next first size = some (batch, after) → source.Reached after := paired.left.next
  have right (batch : Batch Row Rid) (after : source.State) :
      source.next second size = some (batch, after) → source.Reached after := paired.right.next
  generalize source.next first size = front, source.next second size = back at related left right ⊢
  cases related with
  | none => exact Option.Rel.none
  | some same => exact Option.Rel.some ⟨same.1, same.2, left _ _ rfl, right _ _ rfl⟩

theorem paired_init (restarts : source.Restarts) (left : source.Reached first)
    (right : source.Reached second) :
    Option.Rel source.Paired (source.init first) (source.init second) := by
  have front := restarts first left
  have back := restarts second right
  have reachedLeft (after : source.State) : source.init first = some after →
    source.Reached after := left.init
  have reachedRight (after : source.State) : source.init second = some after →
    source.Reached after := right.init
  generalize source.init first = started, source.init second =
    begun, source.init source.fresh = fresh
    at front back reachedLeft reachedRight ⊢
  cases front with
  | none =>
      cases back
      exact Option.Rel.none
  | some same =>
      cases back with
      | some alike =>
          exact Option.Rel.some ⟨alike_trans same (alike_symm alike), reachedLeft _ rfl,
            reachedRight _ rfl⟩

theorem paired_drain (size : Nat) {fuel : Nat} (paired : source.Paired first second) :
    Twins source.Paired (source.drain size fuel first) (source.drain size fuel second) := by
  induction fuel generalizing first second with
  | zero => exact Option.Rel.none
  | succ fuel ih =>
      apply rel_bind (paired_next paired size)
      rintro ⟨batch, after⟩ ⟨_, after'⟩ ⟨rfl, same⟩
      dsimp only
      split
      · apply rel_bind (ih same)
        rintro ⟨rows, final⟩ ⟨_, final'⟩ ⟨rfl, same⟩
        exact Option.Rel.some ⟨rfl, same⟩
      · exact Option.Rel.some ⟨rfl, same⟩

theorem reached_keeps (Inv : source.State → Prop) (start : Inv source.fresh)
    (inits : ∀ before after, Inv before → source.init before = some after → Inv after)
    (nexts : ∀ before size batch after, Inv before → source.next before size = some (batch, after) →
      Inv after) (reached : source.Reached state) : Inv state := by
  induction reached with
  | fresh => exact start
  | init _ begun ih => exact inits _ _ ih begun
  | next _ answered ih => exact nexts _ _ _ _ ih answered

/-- What starting and asking keep holds of every state reached. -/
theorem reached_same (Same : source.State → source.State → Prop)
    (start : Same source.fresh source.fresh)
    (inits : ∀ state, Same state state → Option.Rel Same (source.init state) (source.init state))
    (nexts : ∀ state, Same state state →
      ∀ size, Twins Same (source.next state size) (source.next state size))
    (reached : source.Reached state) : Same state state := by
  induction reached with
  | fresh => exact start
  | init _ started ih =>
      have kept := inits _ ih
      rw [started] at kept
      cases kept with
      | some same => exact same
  | @next before after size batch _ answered ih =>
      have kept := nexts before ih size
      rw [answered] at kept
      cases kept with
      | some same => exact same.2

theorem delivers_next (delivers : source.Delivers strict state rest) {size : Nat}
    (positive : 0 < size) :
    ∃ batch after left, source.next state size = some (batch, after) ∧ Answers rest batch left ∧
      (strict = true → batch.tuples.length ≤ size) ∧ source.Delivers strict after left := by
  obtain ⟨batch, after, left, answered, right, bounded, -⟩ :=
    delivers [size] (by simpa using positive)
  refine ⟨batch, after, left, answered, right, bounded, fun sizes positives => ?_⟩
  obtain ⟨batch', after', left', answered', right', -, meets⟩ :=
    delivers (size :: sizes) (by simpa using ⟨positive, positives⟩)
  obtain ⟨rfl, rfl⟩ : batch = batch' ∧ after = after' := by simpa [answered] using answered'
  -- what is left is what the answer did not bring
  obtain rfl : left = left' := List.append_cancel_left (right.split.symm.trans right'.split)
  exact meets

/-- An invariant that every call keeps is enough. -/
theorem delivers_of (Inv : source.State → List (Row × Rid) → Prop)
    (keeps : ∀ state rest size, Inv state rest → 0 < size → ∃ batch after left,
      source.next state size = some (batch, after) ∧ Answers rest batch left ∧
        (strict = true → batch.tuples.length ≤ size) ∧ Inv after left) (inv : Inv state rest) :
    source.Delivers strict state rest := by
  intro sizes positives
  induction sizes generalizing state rest with
  | nil => trivial
  | cons size sizes ih =>
      obtain ⟨batch, after, left, answered, right, bounded, inv⟩ :=
        keeps state rest size inv (by simp_all)
      exact ⟨batch, after, left, answered, right, bounded, ih inv (by simp_all)⟩

/-- What one answer that brings rows leaves is shorter. -/
theorem answers_shorter {rest left : List (Row × Rid)} (right : Answers rest batch left)
    (more : batch.status = true) : left.length < rest.length := by
  have brings : 0 < batch.rows.length := by
    rw [Batch.rows_length right.together]
    exact List.length_pos_of_ne_nil (right.brings more)
  have total := congrArg List.length right.split
  rw [List.length_append] at total
  omega

theorem answers_last {rest left : List (Row × Rid)} (right : Answers rest batch left)
    (last : batch.status = false) : rest = [] ∧ batch.rows = [] ∧ left = [] := by
  have empty := right.refuses.mp last
  exact ⟨empty, List.append_eq_nil_iff.mp (empty ▸ right.split).symm⟩

theorem drain_delivers {strict : Bool} {state : source.State} {rest : List (Row × Rid)}
    (delivers : source.Delivers strict state rest) {size fuel : Nat} (positive : 0 < size)
    (enough : rest.length < fuel) :
    ∃ final, source.drain size fuel state = some (rest.map Prod.fst, final) := by
  induction fuel generalizing state rest with
  | zero => omega
  | succ fuel ih =>
      obtain ⟨batch, after, left, answered, right, -, delivers⟩ := delivers_next delivers positive
      cases more : batch.status with
      | false => exact ⟨after, by simp [drain, answered, more, right.refuses.mp more]⟩
      | true =>
          have shorter := answers_shorter right more
          obtain ⟨final, drained⟩ := ih delivers (by omega)
          refine ⟨final, ?_⟩
          simp [drain, answered, more, drained, right.split, Batch.map_rows right.together]

/-- Enough calls bring all of it. -/
theorem delivers_total (delivers : source.Delivers strict state rest) {count : Nat}
    (enough : rest.length ≤ count) :
    (source.answers state (List.replicate count 1)).map (List.flatMap Batch.rows) = some rest := by
  induction count generalizing state rest with
  | zero =>
      obtain rfl : rest = [] := List.length_eq_zero_iff.mp (by omega)
      simp [answers]
  | succ count ih =>
      obtain ⟨batch, after, left, answered, right, -, delivers⟩ :=
        delivers_next delivers Nat.one_pos
      have remains : left.length ≤ count := by
        cases more : batch.status with
        | false => simp [(answers_last right more).2.2]
        | true =>
            have shorter := answers_shorter right more
            omega
      obtain ⟨batches, answers, brought⟩ := Option.map_eq_some_iff.mp (ih delivers remains)
      simp [List.replicate_succ, BatchSource.answers, answered, answers, brought, right.split]

theorem delivers_unique (front : source.Delivers strict state rows)
    (back : source.Delivers strict state others) :
    rows = others := by
  have brought := delivers_total front (Nat.le_max_left rows.length others.length)
  rw [delivers_total back (Nat.le_max_right _ _)] at brought
  exact (Option.some.inj brought).symm

theorem meets_loose {sizes : List Nat}
    (meets : source.Meets true state rest sizes) : source.Meets false state rest sizes := by
  induction sizes generalizing state rest with
  | nil => trivial
  | cons size sizes ih =>
      obtain ⟨batch, after, left, answered, right, -, meets⟩ := meets
      exact ⟨batch, after, left, answered, right, (by simp), ih meets⟩

theorem alike_delivers (alike : source.Alike first second)
    (delivers : source.Delivers strict first rest) :
    source.Delivers strict second rest := by
  apply delivers_of fun now rows => ∃ twin, source.Alike twin now ∧ source.Delivers strict twin rows
  · rintro now rows size ⟨twin, alike, delivers⟩ positive
    obtain ⟨batch, after, left, answered, right, within, delivers⟩ :=
      delivers_next delivers positive
    have related := alike_next alike size
    rw [answered] at related
    generalize source.next now size = back at related ⊢
    cases related with
    | @some _ answer same =>
        obtain ⟨rfl, alike⟩ := same
        exact ⟨_, _, left, rfl, right, within, after, alike, delivers⟩
  · exact ⟨first, alike, delivers⟩

/-- States that a relation keeps together, after one start each. -/
theorem alike_started {Same : source.State → source.State → Prop}
    {first second : Option source.State} (related : Option.Rel Same first second)
    (closed : ∀ first second, Same first second → ∀ size, Twins Same (source.next first size)
      (source.next second size)) :
    Option.Rel source.Alike first second := by
  cases related with
  | none => exact Option.Rel.none
  | some same => exact Option.Rel.some (alike_of Same closed same)

theorem paired_fresh : source.Paired source.fresh source.fresh :=
  ⟨alike_refl _, .fresh, .fresh⟩

theorem alike_same_rows (alike : source.Alike first second) :
    source.SameRows first second := by
  intro sizes
  rw [alike sizes]

theorem same_rows_delivers (same : source.SameRows first second)
    (front : source.Delivers strict first rows)
    (back : source.Delivers strict second others) : rows = others := by
  have brought := same (List.replicate (max rows.length others.length) 1)
  rw [delivers_total front (Nat.le_max_left _ _), delivers_total back (Nat.le_max_right _ _)]
    at brought
  exact Option.some.inj brought

end BatchSource

end BusTub
