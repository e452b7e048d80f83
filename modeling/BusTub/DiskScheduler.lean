import BusTub.Channel
import BusTub.DiskRoundTrip

/-!
The disk scheduler of `storage/disk/disk_scheduler.cpp`: any number of clients put
requests into a channel, one background thread takes them out, runs them on the disk
manager and sets their promises. A step is what one thread does between two operations on
the channel.
-/

namespace BusTub

open Function (update)
open TransitionSystem
open DiskRoundTrip (Page History File)

structure DiskRequest (Client : Type) where
  isWrite : Bool
  /-- where the page is in memory -/
  data : Nat
  pageId : PageId
  callback : Client × Nat
  deriving DecidableEq

inductive WorkerTask (Client : Type) where
  /-- at `request_queue_.Get()` -/
  | getting
  /-- at the call of the disk manager -/
  | serving (req : DiskRequest Client)
  /-- at `set_value` -/
  | answering (req : DiskRequest Client)
  | returned

def WorkerTask.next {Client : Type} : Option (DiskRequest Client) → WorkerTask Client
  | none => .returned
  | some req => .serving req

inductive DiskEvent (Client : Type) where
  | request (req : DiskRequest Client) (page : Page)
  | deleted (pid : PageId)

/-- The thread `none` is the worker. `todo` is what the call a client is in has still to
put. `scheduled` records the requests of each client with the page each was scheduled with,
`served` what the disk manager did, `answered` the promises set, with the page that was then
in memory. -/
structure DiskScheduler (Client : Type) where
  requestQueue : Channel (Option Client) (Option (DiskRequest Client))
  task : WorkerTask Client
  todo : Client → List (Option (DiskRequest Client))
  memory : Nat → Page
  history : History
  scheduled : Client → List (DiskRequest Client × Page)
  served : List (DiskEvent Client)
  answered : List (DiskRequest Client × Page)

inductive SchedulerOp (Client : Type) where
  /-- A client calls `Schedule`. -/
  | schedule (c : Client) (requests : List (DiskRequest Client))
  /-- A client destroys the scheduler. -/
  | shutDown (c : Client)
  /-- the next round of the loop of `Schedule` -/
  | put (c : Client)
  | client (c : Client) (op : ChannelOp (Option (DiskRequest Client)))
  | get
  | worker (op : ChannelOp (Option (DiskRequest Client)))
  /-- `Get` returns to the worker. -/
  | leave
  | serve
  | answer
  /-- Somebody writes a page in memory. -/
  | store (address : Nat) (page : Page)
  | deallocatePage (pid : PageId)

def SchedulerOp.own {Client : Type} : SchedulerOp Client → Bool
  | .put _ | .get | .leave | .serve | .answer => true
  | .client _ op | .worker op => op.own
  | _ => false

namespace DiskScheduler
variable {Client : Type} [DecidableEq Client]
  {queue : Channel (Option Client) (Option (DiskRequest Client))}
  {requests : List (DiskRequest Client)} {elements : List (Option (DiskRequest Client))}
  {op : ChannelOp (Option (DiskRequest Client))}

def opened (found : File) (memory : Nat → Page) : DiskScheduler Client where
  requestQueue := .new
  task := .getting
  todo _ := []
  memory := memory
  history := .opened found
  scheduled _ := []
  served := []
  answered := []

def serve (scheduler : DiskScheduler Client) (req : DiskRequest Client) : DiskScheduler Client :=
  let page := scheduler.memory req.data
  if req.isWrite then
    { scheduler with
      task := .answering req
      history := scheduler.history.step (.writePage req.pageId page)
      served := scheduler.served ++ [.request req page] }
  else
    let read := (scheduler.history.disk.readPage req.pageId page).1
    { scheduler with
      task := .answering req
      memory := update scheduler.memory req.data read
      history := scheduler.history.step (.readPage req.pageId page)
      served := scheduler.served ++ [.request req read] }

def Free (scheduler : DiskScheduler Client) (c : Client) : Prop :=
  scheduler.todo c = [] ∧ scheduler.requestQueue.pcs (some c) = .idle

def Fresh (scheduler : DiskScheduler Client) (c : Client)
    (requests : List (DiskRequest Client)) : Prop :=
  requests.map (·.callback) =
    (List.range' (scheduler.scheduled c).length requests.length).map (Prod.mk c)

instance (scheduler : DiskScheduler Client) (c : Client) (requests : List (DiskRequest Client)) :
    Decidable (scheduler.Fresh c requests) :=
  inferInstanceAs (Decidable (_ = _))

instance (scheduler : DiskScheduler Client) (c : Client) : Decidable (scheduler.Free c) :=
  inferInstanceAs (Decidable (_ ∧ _))

def step (scheduler : DiskScheduler Client) : SchedulerOp Client → Option (DiskScheduler Client)
  | .schedule c requests =>
      if scheduler.Free c ∧ scheduler.Fresh c requests then
        some { scheduler with
          todo := update scheduler.todo c (requests.map some)
          scheduled := update scheduler.scheduled c
            (scheduler.scheduled c ++ requests.map fun req => (req, scheduler.memory req.data)) }
      else none
  | .shutDown c =>
      if scheduler.Free c then some { scheduler with todo := update scheduler.todo c [none] }
      else none
  | .put c =>
      match scheduler.todo c with
      | [] => none
      | element :: rest =>
          (scheduler.requestQueue.step (some c) (.put element)).map fun queue =>
            { scheduler with requestQueue := queue, todo := update scheduler.todo c rest }
  | .client c op =>
      if op.own then
        (scheduler.requestQueue.step (some c) op).map fun queue =>
          { scheduler with requestQueue := queue }
      else none
  | .get =>
      match scheduler.task with
      | .getting =>
          (scheduler.requestQueue.step none .get).map fun queue =>
            { scheduler with requestQueue := queue }
      | _ => none
  | .worker op =>
      if (op.own ∨ op = .wake) ∧ op ≠ .leave then
        (scheduler.requestQueue.step none op).map fun queue =>
          { scheduler with requestQueue := queue }
      else none
  | .leave =>
      match scheduler.requestQueue.pcs none with
      | .leaving requestOpt =>
          (scheduler.requestQueue.step none .leave).map fun queue =>
            { scheduler with requestQueue := queue, task := .next requestOpt }
      | _ => none
  | .serve =>
      match scheduler.task with
      | .serving req => some (scheduler.serve req)
      | _ => none
  | .answer =>
      match scheduler.task with
      | .answering req =>
          some { scheduler with
            task := .getting
            answered := scheduler.answered ++ [(req, scheduler.memory req.data)] }
      | _ => none
  | .store address page => some { scheduler with memory := update scheduler.memory address page }
  | .deallocatePage pid =>
      some { scheduler with
        history := scheduler.history.step (.deletePage pid)
        served := scheduler.served ++ [.deleted pid] }

/-! ### Every request in its turn -/

def ofClient (c : Client) (elements : List (Option (DiskRequest Client))) :
    List (DiskRequest Client) :=
  elements.filterMap fun element => element.filter (·.callback.1 = c)

omit [DecidableEq Client] in
def hand (scheduler : DiskScheduler Client) : List (Option (DiskRequest Client)) :=
  match scheduler.task with
  | .getting => (scheduler.requestQueue.pcs none).taken
  | .serving req | .answering req => [some req]
  | .returned => [none]

def unsent (scheduler : DiskScheduler Client) (c : Client) : List (Option (DiskRequest Client)) :=
  (scheduler.requestQueue.pcs (some c)).held ++ scheduler.todo c

/-- Each request is at one place: answered, with the worker, in the queue, or with the call
that brings it; and no client's request overtakes another one of the same client. -/
structure Ordered (scheduler : DiskScheduler Client) : Prop where
  sound : scheduler.requestQueue.Sound
  clients : ∀ c, (scheduler.requestQueue.pcs (some c)).puts = true
  worker : (scheduler.requestQueue.pcs none).gets = true
  /-- While it serves a request the worker is in no call of the channel. -/
  busy : scheduler.task = .getting ∨ scheduler.requestQueue.pcs none = .idle
  popped : scheduler.requestQueue.popped = scheduler.answered.map (some ·.1) ++ scheduler.hand
  whole : ∀ c, ofClient c (scheduler.requestQueue.pushed ++ scheduler.unsent c) =
    (scheduler.scheduled c).map (·.1)
  mine : ∀ c req, some req ∈ scheduler.unsent c → req.callback.1 = c
  numbered : ∀ c, (scheduler.scheduled c).map (·.1.callback) =
    (List.range (scheduler.scheduled c).length).map (Prod.mk c)

variable {scheduler after : DiskScheduler Client} {c : Client} {req : DiskRequest Client}

@[simp] theorem of_client_append (front back : List (Option (DiskRequest Client))) :
    ofClient c (front ++ back) = ofClient c front ++ ofClient c back := List.filterMap_append

@[simp] theorem of_client_nil : ofClient c [] = [] := rfl

theorem of_client_mem :
    req ∈ ofClient c elements ↔ some req ∈ elements ∧ req.callback.1 = c := by
  simp [ofClient, List.mem_filterMap, Option.filter_eq_some_iff]

theorem of_client_other {other : Client}
    (mine : ∀ req, some req ∈ elements → req.callback.1 = other) (apart : c ≠ other) :
    ofClient c elements = [] := by
  refine List.eq_nil_iff_forall_not_mem.mpr fun req member => ?_
  obtain ⟨there, here⟩ := of_client_mem.mp member
  exact apart (here.symm.trans (mine req there))

theorem opened_ordered (found : File) (memory : Nat → Page) :
    (opened found memory : DiskScheduler Client).Ordered where
  sound := Channel.new_sound
  clients _ := rfl
  worker := rfl
  busy := Or.inl rfl
  popped := rfl
  whole _ := rfl
  mine c req member := by simp [unsent, opened, Channel.new, ChannelPc.held] at member
  numbered _ := rfl

theorem client_ordered (ordered : scheduler.Ordered)
    {queue : Channel (Option Client) (Option (DiskRequest Client))}
    {rest sent : List (Option (DiskRequest Client))} (sound : queue.Sound)
    (puts : (queue.pcs (some c)).puts = true)
    (popped : queue.popped = scheduler.requestQueue.popped)
    (pushed : queue.pushed = scheduler.requestQueue.pushed ++ sent)
    (split : sent ++ ((queue.pcs (some c)).held ++ rest) = scheduler.unsent c)
    (stays : Channel.Stays (some c) scheduler.requestQueue queue) :
    Ordered { scheduler with requestQueue := queue, todo := update scheduler.todo c rest } := by
  have others (other : Client) (apart : other ≠ c) :
      queue.pcs (some other) = scheduler.requestQueue.pcs (some other) := by
    refine (stays (some other) (by simpa using apart)).resolve_right fun woken => ?_
    have puts := ordered.clients other
    rw [woken.1] at puts
    cases puts
  have mine : ∀ req, some req ∈ sent ++ ((queue.pcs (some c)).held ++ rest) →
      req.callback.1 = c := by
    rw [split]
    exact ordered.mine c
  have worker := stays none (by simp)
  refine ⟨sound, fun other => ?_, ?_, ?_, ?_, fun other => ?_, fun other req member => ?_,
    ordered.numbered⟩
  · by_cases apart : other = c
    · rw [apart]
      exact puts
    · dsimp only
      rw [others other apart]
      exact ordered.clients other
  · rcases worker with same | ⟨-, woken⟩
    · exact same ▸ ordered.worker
    · dsimp only
      rw [woken]
      rfl
  · refine ordered.busy.imp_right fun idle => ?_
    exact (worker.resolve_right fun woken => by simp [idle] at woken).trans idle
  · have same : (queue.pcs none).taken = (scheduler.requestQueue.pcs none).taken := by
      rcases worker with same | ⟨asleep, woken⟩
      · rw [same]
      · rw [asleep, woken]
        rfl
    have before := ordered.popped
    dsimp only [hand] at before ⊢
    rw [popped, before, same]
  · have before := ordered.whole other
    by_cases apart : other = c
    · subst apart
      dsimp only [unsent] at before split ⊢
      rw [pushed, Function.update_self, List.append_assoc, split]
      exact before
    · have none_sent : ofClient other sent = [] := of_client_other
        (fun req member => mine req (List.mem_append_left _ member)) apart
      dsimp only [unsent] at before ⊢
      rw [pushed, Function.update_of_ne apart, others other apart]
      simpa [none_sent] using before
  · by_cases apart : other = c
    · subst apart
      dsimp only [unsent] at member
      rw [Function.update_self] at member
      exact mine req (List.mem_append_right _ member)
    · dsimp only [unsent] at member
      rw [Function.update_of_ne apart, others other apart] at member
      exact ordered.mine other req member

theorem worker_ordered (ordered : scheduler.Ordered) {got : List (Option (DiskRequest Client))}
    (getting : scheduler.task = .getting) (sound : queue.Sound)
    (gets : (queue.pcs none).gets = true) (pushed : queue.pushed = scheduler.requestQueue.pushed)
    (popped : queue.popped = scheduler.requestQueue.popped ++ got)
    (taken : (queue.pcs none).taken = (scheduler.requestQueue.pcs none).taken ++ got)
    (stays : Channel.Stays none scheduler.requestQueue queue) :
    Ordered { scheduler with requestQueue := queue } := by
  have others (other : Client) : queue.pcs (some other) =
      scheduler.requestQueue.pcs (some other) := by
    refine (stays (some other) (by simp)).resolve_right fun woken => ?_
    have puts := ordered.clients other
    rw [woken.1] at puts
    cases puts
  refine ⟨sound, fun other => ?_, gets, Or.inl getting, ?_, fun other => ?_,
      fun other req member => ?_, ordered.numbered⟩
  · exact (others other).symm ▸ ordered.clients other
  · have before := ordered.popped
    simp only [hand, getting] at before ⊢
    rw [popped, before, taken, List.append_assoc]
  · have before := ordered.whole other
    dsimp only [unsent] at before ⊢
    rw [pushed, others]
    exact before
  · dsimp only [unsent] at member
    rw [others] at member
    exact ordered.mine other req member

omit [DecidableEq Client] in
theorem fresh_mine (fresh : scheduler.Fresh c requests) :
    ∀ req ∈ requests, req.callback.1 = c := by
  intro req member
  have promised : req.callback ∈ requests.map (·.callback) := List.mem_map_of_mem member
  rw [fresh] at promised
  obtain ⟨number, -, same⟩ := List.mem_map.mp promised
  rw [← same]

theorem of_client_all (mine : ∀ req ∈ requests, req.callback.1 = c) :
    ofClient c (requests.map some) = requests := by
  induction requests with
  | nil => rfl
  | cons req rest ih =>
      have here : req.callback.1 = c := mine req (List.mem_cons_self ..)
      have later := ih fun req member => mine req (List.mem_cons_of_mem _ member)
      rw [List.map_cons, ← List.singleton_append, of_client_append, later]
      simp [ofClient, Option.filter_some, here]

omit [DecidableEq Client] in
theorem free_unsent (free : scheduler.Free c) : scheduler.unsent c = [] := by
  simp [unsent, free.1, free.2, ChannelPc.held]

theorem schedule_ordered (ordered : scheduler.Ordered) (free : scheduler.Free c)
    (fresh : scheduler.Fresh c requests) :
    Ordered { scheduler with
      todo := update scheduler.todo c (requests.map some)
      scheduled := update scheduler.scheduled c
        (scheduler.scheduled c ++ requests.map fun req => (req, scheduler.memory req.data)) } := by
  have mine := fresh_mine fresh
  refine ⟨ordered.sound, ordered.clients, ordered.worker, ordered.busy, ordered.popped,
      fun other => ?_, fun other req member => ?_, fun other => ?_⟩
  · have before := ordered.whole other
    by_cases apart : other = c
    · subst apart
      rw [free_unsent free, List.append_nil] at before
      dsimp only [unsent] at before ⊢
      simp [before, free.2, ChannelPc.held, of_client_all mine, Function.comp_def]
    · dsimp only [unsent] at before ⊢
      rw [Function.update_of_ne apart, Function.update_of_ne apart]
      exact before
  · by_cases apart : other = c
    · subst apart
      simp only [unsent, free.2, ChannelPc.held, Function.update_self,
        List.nil_append, List.mem_map, Option.some.injEq, exists_eq_right] at member
      exact mine req member
    · dsimp only [unsent] at member
      rw [Function.update_of_ne apart] at member
      exact ordered.mine other req member
  · by_cases apart : other = c
    · subst apart
      have before := ordered.numbered other
      dsimp only [Fresh] at fresh
      simp only [Function.update_self, List.map_append, List.length_append, List.length_map,
        List.map_map, before]
      rw [show (requests.map ((fun pair : DiskRequest Client × Page => pair.1.callback) ∘
        fun req => (req, scheduler.memory req.data))) = requests.map (·.callback) from rfl, fresh,
        ← List.map_append, List.range_eq_range',
          List.range_eq_range', ← List.range'_append_1, Nat.zero_add]
    · simpa only [Function.update_of_ne apart] using ordered.numbered other

theorem shut_down_ordered (ordered : scheduler.Ordered) (free : scheduler.Free c) :
    Ordered { scheduler with todo := update scheduler.todo c [none] } := by
  refine ⟨ordered.sound, ordered.clients, ordered.worker, ordered.busy, ordered.popped,
      fun other => ?_, fun other req member => ?_, ordered.numbered⟩
  · have before := ordered.whole other
    by_cases apart : other = c
    · subst apart
      rw [free_unsent free, List.append_nil] at before
      dsimp only [unsent] at before ⊢
      rw [free.2, Function.update_self, of_client_append, before]
      exact List.append_nil _
    · dsimp only [unsent] at before ⊢
      rw [Function.update_of_ne apart]
      exact before
  · by_cases apart : other = c
    · subst apart
      simp [unsent, free.2, ChannelPc.held] at member
    · dsimp only [unsent] at member
      rw [Function.update_of_ne apart] at member
      exact ordered.mine other req member

theorem put_ordered (ordered : scheduler.Ordered) {element : Option (DiskRequest Client)}
    {rest : List (Option (DiskRequest Client))} (todo : scheduler.todo c = element :: rest)
    (taken : scheduler.requestQueue.step (some c) (.put element) = some queue) :
    Ordered { scheduler with requestQueue := queue, todo := update scheduler.todo c rest } := by
  have move := Channel.step_move taken
  have stays := Channel.move_stays move
  have sound := Channel.move_sound ordered.sound move
  cases move with
  | put _ idle =>
      refine client_ordered ordered sound (by simp [ChannelPc.puts]) rfl
        (List.append_nil _).symm ?_ stays
      simp [unsent, idle, todo, ChannelPc.held]

theorem own_ordered (ordered : scheduler.Ordered) (own : op.own = true)
    (taken : scheduler.requestQueue.step (some c) op = some queue) :
    Ordered { scheduler with requestQueue := queue } := by
  have move := Channel.step_move taken
  obtain ⟨puts, popped, sent, pushed, held⟩ := Channel.putter_moves move (ordered.clients c) own
  have done := @client_ordered Client _ scheduler c ordered queue (scheduler.todo c) sent
    (Channel.move_sound ordered.sound move) puts popped pushed
      (by rw [← List.append_assoc, held]; rfl)
    (Channel.move_stays move)
  rwa [Function.update_eq_self] at done

theorem inner_ordered (ordered : scheduler.Ordered) (getting : scheduler.task = .getting)
    (inner : op ≠ .leave) (noPut : ∀ element, op ≠ .put element)
    (taken : scheduler.requestQueue.step none op = some queue) :
    Ordered { scheduler with requestQueue := queue } := by
  have move := Channel.step_move taken
  obtain ⟨gets, pushed, got, popped, hand⟩ := Channel.getter_moves move ordered.worker inner noPut
  exact worker_ordered ordered getting (Channel.move_sound ordered.sound move) gets
    pushed popped hand
    (Channel.move_stays move)

theorem leave_ordered (ordered : scheduler.Ordered) {requestOpt : Option (DiskRequest Client)}
    (leaving : scheduler.requestQueue.pcs none = .leaving requestOpt)
    (taken : scheduler.requestQueue.step none .leave = some queue) :
    Ordered { scheduler with requestQueue := queue, task := .next requestOpt } := by
  have move := Channel.step_move taken
  have stays := Channel.move_stays move
  have sound := Channel.move_sound ordered.sound move
  have getting := ordered.busy.resolve_right fun idle => by simp [leaving] at idle
  cases move with
  | leave element stands =>
      have others (other : Client) :
          (({ scheduler.requestQueue with m := none }.setPc none .idle).pcs (some other)) =
          scheduler.requestQueue.pcs (some other) := Channel.set_pc_other (by simp)
      refine ⟨sound, fun other => ?_,
          by simp [ChannelPc.gets], Or.inr
            (by simp), ?_, fun other => ?_, fun other req member => ?_, ordered.numbered⟩
      · exact (others other).symm ▸ ordered.clients other
      · have before := ordered.popped
        simp only [hand, getting, leaving, ChannelPc.taken] at before
        cases requestOpt <;> exact before
      · have before := ordered.whole other
        dsimp only [unsent] at before ⊢
        rw [others]
        exact before
      · dsimp only [unsent] at member
        rw [others] at member
        exact ordered.mine other req member

theorem serve_ordered (ordered : scheduler.Ordered) (serving : scheduler.task = .serving req) :
    (scheduler.serve req).Ordered := by
  have idle := ordered.busy.resolve_left (by simp [serving])
  have popped := ordered.popped
  simp only [hand, serving] at popped
  unfold serve
  split <;> exact ⟨ordered.sound, ordered.clients, ordered.worker, Or.inr idle, popped,
    ordered.whole, ordered.mine, ordered.numbered⟩

theorem answer_ordered (ordered : scheduler.Ordered) (answering : scheduler.task = .answering req) :
    Ordered { scheduler with
      task := .getting
      answered := scheduler.answered ++ [(req, scheduler.memory req.data)] } := by
  have idle := ordered.busy.resolve_left (by simp [answering])
  refine ⟨ordered.sound, ordered.clients, ordered.worker, Or.inl rfl, ?_,
      ordered.whole, ordered.mine, ordered.numbered⟩
  have popped := ordered.popped
  simp only [hand, answering] at popped
  simp [hand, idle, ChannelPc.taken, popped]

theorem step_ordered (ordered : scheduler.Ordered) {op : SchedulerOp Client}
    (taken : scheduler.step op = some after) :
    after.Ordered := by
  unfold step at taken
  split at taken
  case h_1 c requests =>
      split at taken
      case isTrue guard => exact Option.some.inj taken ▸ schedule_ordered ordered guard.1 guard.2
      case isFalse => cases taken
  case h_2 c =>
      split at taken
      case isTrue free => exact Option.some.inj taken ▸ shut_down_ordered ordered free
      case isFalse => cases taken
  case h_3 c =>
      split at taken
      case h_1 => cases taken
      case h_2 element rest todo =>
          obtain ⟨queue, moved, rfl⟩ := Option.map_eq_some_iff.mp taken
          exact put_ordered ordered todo moved
  case h_4 c op =>
      split at taken
      case isTrue own =>
          obtain ⟨queue, moved, rfl⟩ := Option.map_eq_some_iff.mp taken
          exact own_ordered ordered own moved
      case isFalse => cases taken
  case h_5 =>
      split at taken
      case h_1 getting =>
          obtain ⟨queue, moved, rfl⟩ := Option.map_eq_some_iff.mp taken
          exact inner_ordered ordered getting (by simp) (by simp) moved
      case h_2 => cases taken
  case h_6 op =>
      split at taken
      case isTrue guard =>
          obtain ⟨queue, moved, rfl⟩ := Option.map_eq_some_iff.mp taken
          have noPut (element : Option (DiskRequest Client)) : op ≠ .put element := by
            rintro rfl
            simp [ChannelOp.own] at guard
          -- a worker that is in no call makes no such step
          have getting : scheduler.task = .getting := by
            refine ordered.busy.resolve_right fun idle => ?_
            have inCall := Channel.step_move moved
            cases inCall <;> simp_all [ChannelOp.own]
          exact inner_ordered ordered getting guard.2 noPut moved
      case isFalse => cases taken
  case h_7 =>
      split at taken
      case h_1 requestOpt leaving =>
          obtain ⟨queue, moved, rfl⟩ := Option.map_eq_some_iff.mp taken
          exact leave_ordered ordered leaving moved
      case h_2 => cases taken
  case h_8 =>
      split at taken
      case h_1 req serving => exact Option.some.inj taken ▸ serve_ordered ordered serving
      case h_2 => cases taken
  case h_9 =>
      split at taken
      case h_1 req answering => exact Option.some.inj taken ▸ answer_ordered ordered answering
      case h_2 => cases taken
  case h_10 =>
    exact Option.some.inj taken ▸ ⟨ordered.sound, ordered.clients, ordered.worker, ordered.busy,
      ordered.popped, ordered.whole, ordered.mine, ordered.numbered⟩
  case h_11 =>
    exact Option.some.inj taken ▸ ⟨ordered.sound, ordered.clients, ordered.worker, ordered.busy,
      ordered.popped, ordered.whole, ordered.mine, ordered.numbered⟩

/-- The schedulers some interleaving of the worker with any number of clients leads to. -/
def Reached (scheduler : DiskScheduler Client) : Prop :=
  Reachable (fun start => ∃ found memory, start = opened found memory) (graph step) scheduler

theorem reached_ordered (reached : scheduler.Reached) : scheduler.Ordered := by
  refine reachable_preserves Ordered ?_ (fun _ _ _ ordered taken =>
    step_ordered ordered taken) reached
  rintro _ ⟨found, memory, rfl⟩
  exact opened_ordered found memory

/-- What is apart for each client is apart, as no two clients share a promise. -/
theorem apart_of_clients
    (each : ∀ c, ((requests.filter (·.callback.1 = c)).map (·.callback)).Nodup) :
    (requests.map (·.callback)).Nodup := by
  induction requests with
  | nil => exact List.nodup_nil
  | cons req rest ih =>
      rw [List.map_cons, List.nodup_cons]
      constructor
      · intro twice
        obtain ⟨other, member, same⟩ := List.mem_map.mp twice
        have apart := each req.callback.1
        rw [List.filter_cons_of_pos (by simp), List.map_cons, List.nodup_cons] at apart
        exact apart.1 (List.mem_map.mpr ⟨other, List.mem_filter.mpr ⟨member, by simp [same]⟩, same⟩)
      · refine ih fun c => (each c).sublist ?_
        exact ((List.sublist_cons_self req rest).filter _).map _

theorem pushed_apart (ordered : scheduler.Ordered) :
    ((scheduler.requestQueue.pushed.filterMap id).map (·.callback)).Nodup := by
  refine apart_of_clients fun c => ?_
  have same : (scheduler.requestQueue.pushed.filterMap id).filter (·.callback.1 = c) =
      ofClient c scheduler.requestQueue.pushed := by
    rw [List.filter_filterMap]
    rfl
  have promised :
      ((ofClient c (scheduler.requestQueue.pushed ++ scheduler.unsent c)).map
      (·.callback)).Nodup := by
    rw [ordered.whole c, List.map_map]
    exact (ordered.numbered c).symm ▸ List.nodup_range.map fun _ _ equal => (Prod.mk.inj equal).2
  rw [same]
  refine promised.sublist (List.Sublist.map _ ?_)
  rw [of_client_append]
  exact List.sublist_append_left ..

theorem pushed_split (ordered : scheduler.Ordered) :
    scheduler.requestQueue.pushed =
      scheduler.answered.map (some ·.1) ++ scheduler.hand ++ scheduler.requestQueue.q := by
  rw [ordered.sound.fifo, ordered.popped]

theorem answered_apart (ordered : scheduler.Ordered) :
    ((scheduler.answered.map (·.1) ++ scheduler.hand.filterMap id).map (·.callback)).Nodup := by
  refine (pushed_apart ordered).sublist (List.Sublist.map _ ?_)
  rw [pushed_split ordered, List.filterMap_append, List.filterMap_append, List.filterMap_map]
  rw [show (id ∘ fun pair : DiskRequest Client × Page => some pair.1) = fun pair =>
      some pair.1 from rfl, List.filterMap_eq_map']
  exact List.sublist_append_left ..

omit [DecidableEq Client] in
theorem hand_short : scheduler.hand.length ≤ 1 := by
  unfold hand
  split
  · unfold ChannelPc.taken
    split <;> simp
  · simp
  · simp
  · simp

/-- Over every interleaving: the worker answers one request after the other, in the order in
which they came into the queue and never past a `nullopt`; of what a client has scheduled
nothing is lost, doubled or overtaken; and no promise is set twice. -/
theorem requests_in_order (reached : scheduler.Reached) :
    (scheduler.requestQueue.pushed =
      scheduler.answered.map (some ·.1) ++ scheduler.hand ++ scheduler.requestQueue.q ∧
        scheduler.hand.length ≤ 1) ∧
        (∀ c, ofClient c (scheduler.answered.map (some ·.1)) ++ ofClient c scheduler.hand ++
        ofClient c scheduler.requestQueue.q ++ ofClient c (scheduler.unsent c) =
          (scheduler.scheduled c).map (·.1)) ∧ (scheduler.answered.map (·.1.callback)).Nodup := by
  have ordered := reached_ordered reached
  refine ⟨⟨pushed_split ordered, hand_short⟩, fun c => ?_, ?_⟩
  · rw [← ordered.whole c, pushed_split ordered]
    simp only [of_client_append]
  · refine (answered_apart ordered).sublist ?_
    rw [List.map_append, List.map_map]
    exact List.sublist_append_left ..

/-! Two clients: one writes a page and reads it again, the other one reads another page. -/

def writeRead : List (DiskRequest Bool) := [⟨true, 0, 3, (true, 0)⟩, ⟨false, 1, 3, (true, 1)⟩]

def readOther : List (DiskRequest Bool) := [⟨false, 2, 5, (false, 0)⟩]

def putting (c : Bool) : List (SchedulerOp Bool) :=
  [.put c, .client c .lock, .client c .push, .client c .unlock, .client c .notifyAll]

def working : List (SchedulerOp Bool) :=
  [.worker .lock, .worker .test, .worker .take, .leave, .serve, .answer, .get]

def waiting : List (SchedulerOp Bool) := [.worker .lock, .worker .test]

def bothServed : List (SchedulerOp Bool) :=
  [.get, .schedule true writeRead, .schedule false readOther] ++ waiting ++ putting true ++
    putting false ++
    working ++ putting true ++ working ++ working ++ waiting

def started : DiskScheduler Bool := opened ⟨0, fun _ => 0⟩ fun address _ => address.toUInt8

def handled : DiskScheduler Bool := (bothServed.foldlM step started).getD started

theorem handled_reached : handled.Reached :=
  ⟨started, bothServed, ⟨_, _, rfl⟩, run_of_fold rfl⟩

theorem handled_in_order :
    (handled.requestQueue.pushed = handled.answered.map (some ·.1) ++ handled.hand ++
      handled.requestQueue.q ∧ handled.hand.length ≤ 1) ∧
      (∀ c, ofClient c (handled.answered.map (some ·.1)) ++ ofClient c handled.hand ++
        ofClient c handled.requestQueue.q ++ ofClient c (handled.unsent c) =
          (handled.scheduled c).map (·.1)) ∧ (handled.answered.map (·.1.callback)).Nodup :=
  requests_in_order handled_reached

def Settled (scheduler : DiskScheduler Client) : Prop :=
  ∀ op : SchedulerOp Client, op.own = true → scheduler.step op = none

theorem settled_stuck (settled : scheduler.Settled) : scheduler.requestQueue.Stuck := by
  intro t op own
  cases t with
  | some c =>
      have still := settled (.client c op) own
      simpa only [step, own, ↓reduceIte, Option.map_eq_none_iff] using still
  | none =>
      by_cases last : op = .leave
      · subst last
        cases moved : scheduler.requestQueue.step none .leave with
        | none => rfl
        | some queue =>
            have still := settled .leave rfl
            have move := Channel.step_move moved
            cases move with
            | leave element leaving => simp [step, leaving, moved] at still
      · have still := settled (.worker op) own
        simpa only [step, own, last, true_or, not_false_eq_true, ne_eq, and_self, ↓reduceIte,
          Option.map_eq_none_iff] using still

/-- No request is left behind: where nothing can go on, every call of a client has returned,
and either the worker waits and every request ever scheduled is answered, or it has returned
and the requests put before the first `nullopt` are answered. -/
theorem scheduler_settles (reached : scheduler.Reached) (settled : scheduler.Settled) :
    (∀ c, scheduler.Free c) ∧
      (scheduler.requestQueue.pcs none = .asleep ∧
          (∀ c, ofClient c (scheduler.answered.map (some ·.1)) =
            (scheduler.scheduled c).map (·.1)) ∨
        scheduler.task = .returned ∧
          ∃ rest, scheduler.requestQueue.pushed = scheduler.answered.map (some ·.1) ++
            none :: rest) := by
  have ordered := reached_ordered reached
  obtain ⟨-, quiet⟩ := Channel.stuck_quiet ordered.sound (settled_stuck settled)
  have free (c : Client) : scheduler.Free c := by
    have idle : scheduler.requestQueue.pcs (some c) = .idle := by
      refine (quiet (some c)).resolve_right fun asleep => ?_
      have puts := ordered.clients c
      rw [asleep.1] at puts
      cases puts
    refine ⟨?_, idle⟩
    cases todo : scheduler.todo c with
    | nil => rfl
    | cons element rest =>
        have still := settled (.put c) rfl
        simp [step, todo, Channel.step, idle] at still
  refine ⟨free, ?_⟩
  have split := pushed_split ordered
  cases task : scheduler.task with
  | serving req =>
      have still := settled .serve rfl
      simp [step, task] at still
  | answering req =>
      have still := settled .answer rfl
      simp [step, task] at still
  | returned =>
      refine Or.inr ⟨rfl, scheduler.requestQueue.q, ?_⟩
      rw [split]
      simp [hand, task]
  | getting =>
      have asleep := (quiet none).resolve_left fun idle => by
        have still := settled .get rfl
        simp [step, task, Channel.step, idle] at still
      refine Or.inl ⟨asleep.1, fun c => ?_⟩
      have whole := ordered.whole c
      rw [split, free_unsent (free c)] at whole
      simpa [hand, task, asleep, ChannelPc.taken] using whole

theorem handled_settled : handled.Settled := by
  intro op own
  cases op with
  | put c => cases c <;> rfl
  | client c op => cases c <;> cases op <;> rfl
  | worker op =>
      cases op with
      | wake => cases own
      | _ => rfl
  | get | leave | serve | answer => rfl
  | _ => cases own

theorem handled_settles :
    (∀ c, handled.Free c) ∧
      (handled.requestQueue.pcs none = .asleep ∧
          (∀ c, ofClient c (handled.answered.map (some ·.1)) = (handled.scheduled c).map (·.1)) ∨
        handled.task = .returned ∧
          ∃ rest, handled.requestQueue.pushed = handled.answered.map (some ·.1) ++ none :: rest) :=
  scheduler_settles handled_reached handled_settled

end DiskScheduler

end BusTub
