import BusTub.DiskScheduler

/-!
What the requests of a disk scheduler read and write. A client leaves the page of a request
alone until the promise is set, and has no two requests under way on one page of memory.
Then a write brings to disk what the client had in memory when it scheduled the write, and a
read brings what was written last.
-/

namespace BusTub

open Function (update)
open TransitionSystem
open DiskRoundTrip (Page History File)

namespace DiskEvent
variable {Client : Type}

def note (last : PageId → Option Page) : DiskEvent Client → PageId → Option Page
  | .request req page => if req.isWrite then update last req.pageId (some page) else last
  | .deleted pid => update last pid none

def lastIn (events : List (DiskEvent Client)) : PageId → Option Page :=
  events.foldl note fun _ => none

def request? : DiskEvent Client → Option (DiskRequest Client × Page)
  | .request req page => some (req, page)
  | .deleted _ => none

def Coherent (events : List (DiskEvent Client)) : Prop :=
  ∀ front back req page data, events = front ++ .request req page :: back → req.isWrite = false →
    lastIn front req.pageId = some data → page = data

variable {events : List (DiskEvent Client)} {event : DiskEvent Client}

@[simp] theorem last_in_snoc : lastIn (events ++ [event]) = event.note (lastIn events) := by
  simp [lastIn]

theorem coherent_snoc (coherent : Coherent events)
    (here : ∀ req page data, event = .request req page → req.isWrite = false →
      lastIn events req.pageId = some data → page = data) : Coherent (events ++ [event]) := by
  intro front back req page data split reads last
  rcases List.eq_nil_or_concat back with rfl | ⟨rest, final, rfl⟩
  · obtain ⟨rfl, same⟩ := List.append_inj' split rfl
    exact here req page data (List.cons.inj same).1 reads last
  · rw [List.concat_eq_append, ← List.cons_append, ← List.append_assoc] at split
    exact coherent front rest req page data (List.append_inj' split rfl).1 reads last

end DiskEvent

namespace DiskScheduler
variable {Client : Type} [DecidableEq Client]
  {queue : Channel (Option Client) (Option (DiskRequest Client))}

omit [DecidableEq Client] in
def Pending (scheduler : DiskScheduler Client) (req : DiskRequest Client) : Prop :=
  (∃ c page, (req, page) ∈ scheduler.scheduled c) ∧ ∀ page, (req, page) ∉ scheduler.answered

/-- The pages of memory under way are left alone, and the file stays below 2 GiB. -/
def Careful (scheduler : DiskScheduler Client) : SchedulerOp Client → Prop
  | .schedule _ requests =>
      (requests.map (·.data)).Nodup ∧ ∀ req ∈ requests, ∀ other, scheduler.Pending other →
        other.data ≠ req.data
  | .store address _ => ∀ req, scheduler.Pending req → req.data ≠ address
  | .serve => ∀ req, scheduler.task = .serving req → scheduler.history.Small
      (if req.isWrite then .writePage req.pageId (scheduler.memory req.data)
       else .readPage req.pageId (scheduler.memory req.data))
  | _ => True

/-- The request whose promise is to be set, with the page that is in memory. -/
def current (scheduler : DiskScheduler Client) : List (DiskRequest Client × Page) :=
  match scheduler.task with
  | .answering req => [(req, scheduler.memory req.data)]
  | _ => []

structure Faithful (scheduler : DiskScheduler Client) : Prop where
  ordered : scheduler.Ordered
  kept : scheduler.history.Kept
  last : scheduler.history.lastWritten = DiskEvent.lastIn scheduler.served
  coherent : DiskEvent.Coherent scheduler.served
  /-- What was read is in memory when the promise is set. -/
  told : scheduler.served.filterMap DiskEvent.request? = scheduler.answered ++ scheduler.current
  /-- Each page of memory has one request under way. -/
  apart : ∀ req other, scheduler.Pending req → scheduler.Pending other →
    req.data = other.data → req = other
  /-- The pages of the requests that wait are as they were scheduled. -/
  untouched : ∀ c req page, (req, page) ∈ scheduler.scheduled c → scheduler.Pending req →
    scheduler.task ≠ .answering req → scheduler.memory req.data = page
  written : ∀ req page, (DiskEvent.request req page) ∈ scheduler.served → req.isWrite = true →
    (req, page) ∈ scheduler.scheduled req.callback.1

variable {scheduler after : DiskScheduler Client} {c : Client} {req : DiskRequest Client}

theorem pushed_scheduled (ordered : scheduler.Ordered)
    (pushed : some req ∈ scheduler.requestQueue.pushed) :
    ∃ page, (req, page) ∈ scheduler.scheduled req.callback.1 := by
  have mine : req ∈
    ofClient req.callback.1 (scheduler.requestQueue.pushed ++ scheduler.unsent req.callback.1) :=
    of_client_mem.mpr ⟨List.mem_append_left _ pushed, rfl⟩
  rw [ordered.whole] at mine
  obtain ⟨⟨_, page⟩, member, rfl⟩ := List.mem_map.mp mine
  exact ⟨page, member⟩

theorem hand_scheduled (ordered : scheduler.Ordered) (hand : scheduler.hand = [some req]) :
    ∃ page, (req, page) ∈ scheduler.scheduled req.callback.1 := by
  refine pushed_scheduled ordered ?_
  rw [pushed_split ordered, hand]
  simp

theorem hand_pending (ordered : scheduler.Ordered) (hand : scheduler.hand = [some req]) :
    scheduler.Pending req := by
  refine ⟨⟨_, hand_scheduled ordered hand⟩, fun page answered => ?_⟩
  have apart := answered_apart ordered
  rw [hand, List.map_append, List.nodup_append] at apart
  refine apart.2.2 req.callback ?_ req.callback (by simp) rfl
  exact List.mem_map_of_mem (List.mem_map_of_mem answered)

theorem opened_faithful (found : File) (memory : Nat → Page) :
    (opened found memory : DiskScheduler Client).Faithful where
  ordered := opened_ordered found memory
  kept := ⟨DiskRoundTrip.Manager.opened_sound found, by simp [opened, History.opened]⟩
  last := rfl
  coherent front back req page data split := by simp [opened] at split
  told := rfl
  apart req other pending := by simp [Pending, opened] at pending
  untouched c req page member := by simp [opened] at member
  written req page member := by simp [opened] at member

theorem queue_faithful (faithful : scheduler.Faithful)
    {todo : Client → List (Option (DiskRequest Client))}
    (ordered : Ordered { scheduler with requestQueue := queue, todo := todo }) :
    Faithful { scheduler with requestQueue := queue, todo := todo } :=
  ⟨ordered, faithful.kept, faithful.last, faithful.coherent, faithful.told, faithful.apart,
    faithful.untouched, faithful.written⟩

theorem leave_faithful (faithful : scheduler.Faithful) (getting : scheduler.task = .getting)
    {requestOpt : Option (DiskRequest Client)}
    (ordered : Ordered { scheduler with requestQueue := queue, task := .next requestOpt }) :
    Faithful { scheduler with requestQueue := queue, task := .next requestOpt } := by
  have told : scheduler.served.filterMap DiskEvent.request? = scheduler.answered ++ [] := by
    have before := faithful.told
    rwa [current, getting] at before
  refine ⟨ordered, faithful.kept, faithful.last, faithful.coherent, ?_, faithful.apart, ?_,
    faithful.written⟩
  · cases requestOpt <;> exact told
  · intro c req page member pending _
    exact faithful.untouched c req page member pending (by simp [getting])

theorem schedule_faithful (faithful : scheduler.Faithful) {requests : List (DiskRequest Client)}
    (free : scheduler.Free c) (fresh : scheduler.Fresh c requests)
    (careful : scheduler.Careful (.schedule c requests)) :
    Faithful { scheduler with
      todo := update scheduler.todo c (requests.map some)
      scheduled := update scheduler.scheduled c
        (scheduler.scheduled c ++ requests.map fun req => (req, scheduler.memory req.data)) } := by
  have ordered := faithful.ordered
  obtain ⟨distinct, others⟩ := careful
  have split {other : Client} {req : DiskRequest Client} {page : Page}
    (member : (req, page) ∈ update scheduler.scheduled c
      (scheduler.scheduled c ++ requests.map fun req => (req, scheduler.memory req.data)) other) :
    (req, page) ∈ scheduler.scheduled other ∨ req ∈ requests ∧
      scheduler.memory req.data = page := by
    by_cases same : other = c
    · subst same
      rw [Function.update_self] at member
      refine (List.mem_append.mp member).imp_right fun new => ?_
      obtain ⟨_, listed, same⟩ := List.mem_map.mp new
      obtain ⟨rfl, rfl⟩ := Prod.mk.inj same
      exact ⟨listed, rfl⟩
    · rw [Function.update_of_ne same] at member
      exact Or.inl member
  have pending {req : DiskRequest Client}
    (waits : Pending { scheduler with
      todo := update scheduler.todo c (requests.map some)
      scheduled := update scheduler.scheduled c
        (scheduler.scheduled c ++ requests.map fun req => (req, scheduler.memory req.data)) }
          req) :
    scheduler.Pending req ∨ req ∈ requests := by
    obtain ⟨⟨other, page, member⟩, unanswered⟩ := waits
    exact (split member).imp (fun old => ⟨⟨other, page, old⟩, unanswered⟩) And.left
  refine ⟨schedule_ordered ordered free fresh, faithful.kept, faithful.last, faithful.coherent,
      faithful.told, ?_, ?_, ?_⟩
  · intro req other first second same
    rcases pending first with old | new
    · rcases pending second with old' | new'
      · exact faithful.apart req other old old' same
      · exact absurd same (others other new' req old)
    · rcases pending second with old' | new'
      · exact absurd same.symm (others req new other old')
      · exact List.inj_on_of_nodup_map distinct new new' same
  · intro other req page member waits busy
    rcases split member with old | ⟨-, page⟩
    · exact faithful.untouched other req page old ⟨⟨other, page, old⟩, waits.2⟩ busy
    · exact page
  · intro req page served writes
    have before := faithful.written req page served writes
    dsimp only
    by_cases same : req.callback.1 = c
    · rw [same, Function.update_self]
      exact List.mem_append_left _ (same ▸ before)
    · rwa [Function.update_of_ne same]

theorem serve_faithful (faithful : scheduler.Faithful) (serving : scheduler.task = .serving req)
    (careful : scheduler.Careful .serve) : (scheduler.serve req).Faithful := by
  have ordered := faithful.ordered
  have small := careful req serving
  have atHand : scheduler.hand = [some req] := by simp [hand, serving]
  have waits := hand_pending ordered atHand
  obtain ⟨page, scheduled⟩ := hand_scheduled ordered atHand
  have asked := faithful.untouched _ req page scheduled waits (by simp [serving])
  have told : scheduler.served.filterMap DiskEvent.request? = scheduler.answered := by
    have before := faithful.told
    rwa [current, serving, List.append_nil] at before
  have after := serve_ordered ordered serving
  unfold serve at after ⊢
  by_cases writes : req.isWrite = true
  · simp only [writes, ↓reduceIte] at small after ⊢
    refine ⟨after, DiskRoundTrip.History.step_kept faithful.kept _ small, ?_, ?_, ?_,
      faithful.apart, ?_, ?_⟩
    · rw [DiskEvent.last_in_snoc, ← faithful.last]
      simp [DiskEvent.note, writes, History.step]
    · refine DiskEvent.coherent_snoc faithful.coherent fun other page data same reads => ?_
      obtain ⟨rfl, -⟩ := DiskEvent.request.inj same
      simp [writes] at reads
    · simp [told, DiskEvent.request?, current]
    · intro other req' page member pending _
      exact faithful.untouched other req' page member pending (by simp [serving])
    · intro other page member written
      rcases List.mem_append.mp member with old | new
      · exact faithful.written other page old written
      · obtain ⟨rfl, rfl⟩ := DiskEvent.request.inj (List.mem_singleton.mp new)
        rwa [asked]
  · simp only [writes, Bool.false_eq_true, ↓reduceIte] at small after ⊢
    refine ⟨after, DiskRoundTrip.History.step_kept faithful.kept _ small, ?_, ?_, ?_,
      faithful.apart, ?_, ?_⟩
    · rw [DiskEvent.last_in_snoc, ← faithful.last]
      simp [DiskEvent.note, writes, History.step]
    · refine DiskEvent.coherent_snoc faithful.coherent fun other page data same _ last => ?_
      obtain ⟨rfl, rfl⟩ := DiskEvent.request.inj same
      rw [← faithful.last] at last
      exact DiskRoundTrip.History.kept_reads_back faithful.kept _ data _ last
    · simp [told, DiskEvent.request?, current]
    -- the page that was read goes where no other request that waits has its page
    · intro other req' page member pending busy
      have apart : req'.data ≠ req.data := fun same =>
        busy (congrArg WorkerTask.answering (faithful.apart req' req pending waits same).symm)
      dsimp only
      rw [Function.update_of_ne apart]
      exact faithful.untouched other req' page member pending (by simp [serving])
    · intro other page member written
      rcases List.mem_append.mp member with old | new
      · exact faithful.written other page old written
      · obtain ⟨rfl, -⟩ := DiskEvent.request.inj (List.mem_singleton.mp new)
        exact absurd written writes

theorem answer_faithful (faithful : scheduler.Faithful)
    (answering : scheduler.task = .answering req) :
    Faithful { scheduler with
      task := .getting
      answered := scheduler.answered ++ [(req, scheduler.memory req.data)] } := by
  have told := faithful.told
  rw [current, answering] at told
  have waits {other : DiskRequest Client}
    (unanswered : ∀ page,
      (other, page) ∉ scheduler.answered ++ [(req, scheduler.memory req.data)]) :
    (∀ page, (other, page) ∉ scheduler.answered) ∧ other ≠ req := by
    refine ⟨fun page answered => unanswered page (List.mem_append_left _ answered), ?_⟩
    rintro rfl
    exact unanswered (scheduler.memory other.data) (by simp)
  refine ⟨answer_ordered faithful.ordered answering, faithful.kept, faithful.last,
      faithful.coherent, ?_, ?_, ?_, faithful.written⟩
  · rw [told, current, List.append_nil]
  · intro first second one two same
    exact faithful.apart first second ⟨one.1, (waits one.2).1⟩
      ⟨two.1, (waits two.2).1⟩ same
  · intro c other page member pending _
    obtain ⟨unanswered, apart⟩ := waits pending.2
    refine faithful.untouched c other page member ⟨⟨c, page, member⟩, unanswered⟩ ?_
    rw [answering]
    exact fun same => apart (WorkerTask.answering.inj same).symm

theorem store_faithful (faithful : scheduler.Faithful) {address : Nat} {page : Page}
    (careful : scheduler.Careful (.store address page)) :
    Faithful { scheduler with memory := update scheduler.memory address page } := by
  have ordered := faithful.ordered
  refine ⟨⟨ordered.sound, ordered.clients, ordered.worker, ordered.busy, ordered.popped,
      ordered.whole, ordered.mine, ordered.numbered⟩, faithful.kept, faithful.last,
        faithful.coherent, ?_, faithful.apart, ?_,
    faithful.written⟩
  · rw [faithful.told]
    cases task : scheduler.task with
    | answering req =>
        have other := careful req (hand_pending ordered (by simp [hand, task]))
        simp [current, task, Function.update_of_ne other]
    | _ => simp [current, task]
  · intro c req page member pending busy
    dsimp only
    rw [Function.update_of_ne (careful req pending)]
    exact faithful.untouched c req page member pending busy

theorem deallocate_faithful (faithful : scheduler.Faithful) (pid : PageId) :
    Faithful { scheduler with
      history := scheduler.history.step (.deletePage pid)
      served := scheduler.served ++ [.deleted pid] } := by
  have ordered := faithful.ordered
  refine ⟨⟨ordered.sound, ordered.clients, ordered.worker, ordered.busy, ordered.popped,
      ordered.whole, ordered.mine, ordered.numbered⟩, DiskRoundTrip.History.step_kept faithful.kept
        (.deletePage pid) trivial, ?_, ?_,
    ?_, faithful.apart, faithful.untouched, ?_⟩
  · rw [DiskEvent.last_in_snoc, ← faithful.last]
    rfl
  · exact DiskEvent.coherent_snoc faithful.coherent fun _ _ _ same => nomatch same
  · rw [List.filterMap_append, faithful.told]
    exact List.append_nil _
  · intro req page member written
    refine faithful.written req page ?_ written
    simpa using member

theorem step_faithful (faithful : scheduler.Faithful) {op : SchedulerOp Client}
    (careful : scheduler.Careful op) (taken : scheduler.step op = some after) : after.Faithful := by
  have ordered := step_ordered faithful.ordered taken
  unfold step at taken
  split at taken
  case h_1 c requests =>
      split at taken
      case isTrue guard =>
          exact Option.some.inj taken ▸ schedule_faithful faithful guard.1 guard.2 careful
      case isFalse => cases taken
  case h_2 c =>
      split at taken
      case isTrue free =>
          cases taken
          exact queue_faithful faithful ordered
      case isFalse => cases taken
  case h_3 c =>
      split at taken
      case h_1 => cases taken
      case h_2 element rest todo =>
          obtain ⟨queue, moved, rfl⟩ := Option.map_eq_some_iff.mp taken
          exact queue_faithful faithful ordered
  case h_4 c op =>
      split at taken
      case isTrue own =>
          obtain ⟨queue, moved, rfl⟩ := Option.map_eq_some_iff.mp taken
          exact queue_faithful faithful ordered
      case isFalse => cases taken
  case h_5 =>
      split at taken
      case h_1 getting =>
          obtain ⟨queue, moved, rfl⟩ := Option.map_eq_some_iff.mp taken
          exact queue_faithful faithful ordered
      case h_2 => cases taken
  case h_6 op =>
      split at taken
      case isTrue guard =>
          obtain ⟨queue, moved, rfl⟩ := Option.map_eq_some_iff.mp taken
          exact queue_faithful faithful ordered
      case isFalse => cases taken
  case h_7 =>
      split at taken
      case h_1 requestOpt leaving =>
          obtain ⟨queue, moved, rfl⟩ := Option.map_eq_some_iff.mp taken
          have getting := faithful.ordered.busy.resolve_right fun idle => by simp [leaving] at idle
          exact leave_faithful faithful getting ordered
      case h_2 => cases taken
  case h_8 =>
      split at taken
      case h_1 req serving => exact Option.some.inj taken ▸ serve_faithful faithful serving careful
      case h_2 => cases taken
  case h_9 =>
      split at taken
      case h_1 req answering => exact Option.some.inj taken ▸ answer_faithful faithful answering
      case h_2 => cases taken
  case h_10 => exact Option.some.inj taken ▸ store_faithful faithful careful
  case h_11 pid => exact Option.some.inj taken ▸ deallocate_faithful faithful pid

/-- In every interleaving in which the clients leave the pages of their requests alone: a
write brings to disk what was in memory when it was scheduled, a read brings what was
written last, and when its promise is set this page is in memory. -/
theorem requests_round_trip
    (reached : Reachable (fun start => ∃ found memory, start = opened found memory)
      (guarded Careful (graph step))
      scheduler) :
    DiskEvent.Coherent scheduler.served ∧
      scheduler.served.filterMap DiskEvent.request? = scheduler.answered ++ scheduler.current ∧
        ∀ req page, (DiskEvent.request req page) ∈ scheduler.served → req.isWrite = true →
          (req, page) ∈ scheduler.scheduled req.callback.1 := by
  have faithful : scheduler.Faithful := by
    refine reachable_preserves Faithful ?_ ?_ reached
    · rintro _ ⟨found, memory, rfl⟩
      exact opened_faithful found memory
    · intro before op after faithful step
      exact step_faithful faithful step.1 step.2
  exact ⟨faithful.coherent, faithful.told, faithful.written⟩

def cautious (scheduler : DiskScheduler Bool) : SchedulerOp Bool → Bool
  | .schedule _ requests =>
      (requests.map (·.data)).Nodup && requests.all fun req =>
        (scheduler.scheduled true ++ scheduler.scheduled false).all fun other =>
          other.1.data != req.data
  | .store _ _ => false
  | .serve => scheduler.history.disk.pages.keys.length + 1 < 131072
  | _ => true

theorem cautious_careful {scheduler : DiskScheduler Bool} {op : SchedulerOp Bool}
    (cautious : scheduler.cautious op = true) : scheduler.Careful op := by
  cases op with
  | schedule c requests =>
      simp only [DiskScheduler.cautious, Bool.and_eq_true, decide_eq_true_eq, List.all_eq_true,
        bne_iff_ne] at cautious
      refine ⟨cautious.1, fun req member other pending => ?_⟩
      obtain ⟨⟨client, page, scheduled⟩, -⟩ := pending
      refine cautious.2 req member (other, page) ?_
      cases client <;> simp [scheduled]
  | store address page => cases cautious
  | serve =>
      simp only [DiskScheduler.cautious, decide_eq_true_eq] at cautious
      intro req serving
      split <;> exact fun _ _ => cautious
  | _ => trivial

theorem handled_round_trip :
    DiskEvent.Coherent handled.served ∧
      handled.served.filterMap DiskEvent.request? = handled.answered ++ handled.current ∧
        ∀ req page, (DiskEvent.request req page) ∈ handled.served → req.isWrite = true →
          (req, page) ∈ handled.scheduled req.callback.1 := by
  refine requests_round_trip ⟨started, bothServed, ⟨_, _, rfl⟩, ?_⟩
  exact run_mono (fun _ _ _ step => ⟨cautious_careful step.1, step.2⟩)
    (@run_of_guarded_fold _ _ cautious step _ _ _ rfl)

end DiskScheduler

end BusTub
