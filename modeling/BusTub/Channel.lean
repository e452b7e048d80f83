import BusTub.TransitionSystem
import Mathlib.Logic.Function.Basic

/-!
The channel of `common/channel.h`: a queue under a mutex, with a condition variable on
which `Get` waits. Any number of threads put and get. A step is what one thread does
between two operations on the mutex or the condition variable.
-/

namespace BusTub

open Function (update)
open TransitionSystem

inductive ChannelPc (T : Type) where
  | idle
  /-- `Put`, at the lock -/
  | putting (element : T)
  /-- at `q_.push` -/
  | pushing (element : T)
  /-- at `lk.unlock()` -/
  | unlocking
  /-- at `cv_.notify_all()`, the mutex given back -/
  | notifying
  /-- `Get`, at the lock -/
  | getting
  /-- at the predicate of `cv_.wait` -/
  | testing
  /-- waits for a notification, the mutex given back -/
  | asleep
  /-- has been woken and asks for the mutex again -/
  | woken
  /-- at `q_.front()` and `q_.pop()` -/
  | taking
  /-- at the end of `Get` -/
  | leaving (element : T)
  deriving DecidableEq

structure Channel (Thread T : Type) where
  q : List T
  m : Option Thread
  pcs : Thread → ChannelPc T
  pushed : List T
  popped : List T

inductive ChannelOp (T : Type) where
  | put (element : T)
  | get
  | lock
  | push
  | unlock
  | notifyAll
  | test
  | take
  | leave
  /-- without a notification -/
  | wake
  deriving DecidableEq

def ChannelOp.own {T : Type} : ChannelOp T → Bool
  | .put _ | .get | .wake => false
  | _ => true

namespace ChannelPc
variable {T : Type}

def inside : ChannelPc T → Bool
  | .pushing _ | .unlocking | .testing | .taking | .leaving _ => true
  | _ => false

def owes : ChannelPc T → Bool
  | .unlocking | .notifying => true
  | _ => false

def puts : ChannelPc T → Bool
  | .idle | .putting _ | .pushing _ | .unlocking | .notifying => true
  | _ => false

def gets : ChannelPc T → Bool
  | .idle | .getting | .testing | .asleep | .woken | .taking | .leaving _ => true
  | _ => false

def held : ChannelPc T → List T
  | .putting element | .pushing element => [element]
  | _ => []

def taken : ChannelPc T → List T
  | .leaving element => [element]
  | _ => []

end ChannelPc

namespace Channel
variable {Thread T : Type} [DecidableEq Thread]

def new : Channel Thread T where
  q := []
  m := none
  pcs _ := .idle
  pushed := []
  popped := []

def setPc (channel : Channel Thread T) (t : Thread) (pc : ChannelPc T) : Channel Thread T :=
  { channel with pcs := update channel.pcs t pc }

def awake (channel : Channel Thread T) : Channel Thread T :=
  { channel with pcs := fun t => match channel.pcs t with
      | .asleep => .woken
      | pc => pc }

def step (channel : Channel Thread T) (t : Thread) (op : ChannelOp T) : Option (Channel Thread T) :=
  match op, channel.pcs t with
  | .put element, .idle => some (channel.setPc t (.putting element))
  | .get, .idle => some (channel.setPc t .getting)
  | .lock, .putting element =>
      if channel.m.isNone then some ({ channel with m := some t }.setPc t (.pushing element))
      else none
  | .lock, .getting | .lock, .woken =>
      if channel.m.isNone then some ({ channel with m := some t }.setPc t .testing) else none
  | .push, .pushing element =>
      some ({ channel with
        q := channel.q ++ [element]
        pushed := channel.pushed ++ [element] }.setPc t .unlocking)
  | .unlock, .unlocking => some ({ channel with m := none }.setPc t .notifying)
  | .notifyAll, .notifying => some (channel.awake.setPc t .idle)
  | .test, .testing =>
      if channel.q = [] then some ({ channel with m := none }.setPc t .asleep)
      else some (channel.setPc t .taking)
  | .take, .taking =>
      match channel.q with
      | [] => none
      | element :: rest =>
          some ({ channel with q := rest, popped := channel.popped ++ [element] }.setPc t
            (.leaving element))
  | .leave, .leaving _ => some ({ channel with m := none }.setPc t .idle)
  | .wake, .asleep => some (channel.setPc t .woken)
  | _, _ => none

inductive Move (channel : Channel Thread T) (t : Thread) :
    ChannelOp T → Channel Thread T → Prop where
  | put (element : T) (idle : channel.pcs t = .idle) :
    channel.Move t (.put element) (channel.setPc t (.putting element))
  | get (idle : channel.pcs t = .idle) : channel.Move t .get (channel.setPc t .getting)
  | enter (element : T) (waits : channel.pcs t = .putting element) (free : channel.m = none) :
      channel.Move t .lock ({ channel with m := some t }.setPc t (.pushing element))
  | look (waits : channel.pcs t = .getting ∨ channel.pcs t = .woken) (free : channel.m = none) :
      channel.Move t .lock ({ channel with m := some t }.setPc t .testing)
  | push (element : T) (pushing : channel.pcs t = .pushing element) :
      channel.Move t .push
        ({ channel with q := channel.q ++ [element], pushed := channel.pushed ++ [element] }.setPc t
          .unlocking)
  | unlock (unlocking : channel.pcs t = .unlocking) :
      channel.Move t .unlock ({ channel with m := none }.setPc t .notifying)
  | notifyAll (notifying : channel.pcs t = .notifying) : channel.Move t .notifyAll
      (channel.awake.setPc t .idle)
  | sleep (testing : channel.pcs t = .testing) (empty : channel.q = []) :
      channel.Move t .test ({ channel with m := none }.setPc t .asleep)
  | test (testing : channel.pcs t = .testing) (more : channel.q ≠ []) :
      channel.Move t .test (channel.setPc t .taking)
  | take (element : T) (rest : List T) (taking : channel.pcs t = .taking)
      (queue : channel.q = element :: rest) :
      channel.Move t .take
        ({ channel with q := rest, popped := channel.popped ++ [element] }.setPc t
          (.leaving element))
  | leave (element : T) (leaving : channel.pcs t = .leaving element) :
      channel.Move t .leave ({ channel with m := none }.setPc t .idle)
  | wake (asleep : channel.pcs t = .asleep) : channel.Move t .wake (channel.setPc t .woken)

variable {channel after : Channel Thread T} {t other : Thread} {op : ChannelOp T} {pc : ChannelPc T}

theorem step_move (step : channel.step t op = some after) : channel.Move t op after := by
  unfold Channel.step at step
  split at step
  case h_1 element idle => exact Option.some.inj step ▸ .put element idle
  case h_2 idle => exact Option.some.inj step ▸ .get idle
  case h_3 element waits =>
      split at step
      case isTrue free =>
          exact Option.some.inj step ▸ .enter element waits (Option.isNone_iff_eq_none.mp free)
      case isFalse => cases step
  case h_4 waits =>
      split at step
      case isTrue free =>
          exact Option.some.inj step ▸ .look (Or.inl waits) (Option.isNone_iff_eq_none.mp free)
      case isFalse => cases step
  case h_5 waits =>
      split at step
      case isTrue free =>
          exact Option.some.inj step ▸ .look (Or.inr waits) (Option.isNone_iff_eq_none.mp free)
      case isFalse => cases step
  case h_6 element pushing => exact Option.some.inj step ▸ .push element pushing
  case h_7 unlocking => exact Option.some.inj step ▸ .unlock unlocking
  case h_8 notifying => exact Option.some.inj step ▸ .notifyAll notifying
  case h_9 testing =>
      split at step
      case isTrue empty => exact Option.some.inj step ▸ .sleep testing empty
      case isFalse more => exact Option.some.inj step ▸ .test testing more
  case h_10 taking =>
      split at step
      case h_1 => cases step
      case h_2 element rest queue => exact Option.some.inj step ▸ .take element rest taking queue
  case h_11 element leaving => exact Option.some.inj step ▸ .leave element leaving
  case h_12 asleep => exact Option.some.inj step ▸ .wake asleep
  case h_13 => cases step

@[simp] theorem set_pc_q : (channel.setPc t pc).q = channel.q := rfl
@[simp] theorem set_pc_m : (channel.setPc t pc).m = channel.m := rfl
@[simp] theorem set_pc_pushed : (channel.setPc t pc).pushed = channel.pushed := rfl
@[simp] theorem set_pc_popped : (channel.setPc t pc).popped = channel.popped := rfl
@[simp] theorem set_pc_here : (channel.setPc t pc).pcs t = pc := Function.update_self _ _ _
omit [DecidableEq Thread] in
@[simp] theorem awake_q : channel.awake.q = channel.q := rfl
omit [DecidableEq Thread] in
@[simp] theorem awake_m : channel.awake.m = channel.m := rfl
omit [DecidableEq Thread] in
@[simp] theorem awake_pushed : channel.awake.pushed = channel.pushed := rfl
omit [DecidableEq Thread] in
@[simp] theorem awake_popped : channel.awake.popped = channel.popped := rfl

theorem set_pc_other (apart : other ≠ t) : (channel.setPc t pc).pcs other = channel.pcs other :=
  Function.update_of_ne apart _ _

structure Sound (channel : Channel Thread T) : Prop where
  /-- The thread that has the mutex is the one inside. -/
  exclusive : ∀ t, (channel.pcs t).inside = true ↔ channel.m = some t
  /-- What has been put is taken in this order, or is still there. -/
  fifo : channel.pushed = channel.popped ++ channel.q
  ready : ∀ t, channel.pcs t = .taking → channel.q ≠ []
  /-- While there is something to take, those that sleep are about to be told. -/
  told : channel.q ≠ [] → ∀ t, channel.pcs t = .asleep → ∃ s, (channel.pcs s).owes = true

omit [DecidableEq Thread] in
theorem new_sound : (new : Channel Thread T).Sound where
  exclusive t := by simp [new, ChannelPc.inside]
  fifo := rfl
  ready t taking := by simp [new] at taking
  told more := absurd rfl more

section
variable {pcs : Thread → ChannelPc T}

theorem exclusive_set {before m : Option Thread}
    (exclusive : ∀ other, (pcs other).inside = true ↔ before = some other)
    (here : pc.inside = true ↔ m = some t)
    (others : ∀ other, other ≠ t → (before = some other ↔ m = some other)) :
    ∀ other, (update pcs t pc other).inside = true ↔ m = some other := by
  intro other
  by_cases same : other = t
  · rw [same, Function.update_self]
    exact here
  · rw [Function.update_of_ne same]
    exact (exclusive other).trans (others other same)

theorem ready_set {q : List T} (here : pc = .taking → q ≠ [])
    (others : ∀ other, other ≠ t → pcs other = .taking → q ≠ []) :
    ∀ other, update pcs t pc other = .taking → q ≠ [] := by
  intro other taking
  by_cases same : other = t
  · rw [same, Function.update_self] at taking
    exact here taking
  · rw [Function.update_of_ne same] at taking
    exact others other same taking

/-- `t` told nobody and does not sleep: whoever had to tell still has to. -/
theorem told_set (told : ∀ other, pcs other = .asleep → ∃ s, (pcs s).owes = true)
    (before : (pcs t).owes = false) (sleepless : pc ≠ .asleep) :
    ∀ other, update pcs t pc other = .asleep → ∃ s, (update pcs t pc s).owes = true := by
  intro other asleep
  have apart : other ≠ t := by
    rintro rfl
    rw [Function.update_self] at asleep
    exact sleepless asleep
  rw [Function.update_of_ne apart] at asleep
  obtain ⟨s, owes⟩ := told other asleep
  have stays : s ≠ t := by
    rintro rfl
    rw [before] at owes
    cases owes
  exact ⟨s, by rwa [Function.update_of_ne stays]⟩

end

omit [DecidableEq Thread] in
theorem taking_holds (sound : channel.Sound) (taking : channel.pcs t = .taking) :
    channel.m = some t :=
  (sound.exclusive t).mp (by rw [taking]; rfl)

omit [DecidableEq Thread] in
theorem outside_free (sound : channel.Sound) (outside : (channel.pcs t).inside = false) :
    channel.m ≠ some t := by
  intro holds
  rw [(sound.exclusive t).mpr holds] at outside
  cases outside

/-- `t` changes nothing but where it stands, and stays outside. -/
theorem outside_sound (sound : channel.Sound) (before : (channel.pcs t).inside = false)
    (after : pc.inside = false) (quiet : (channel.pcs t).owes = false) (sleepless : pc ≠ .asleep) :
    (channel.setPc t pc).Sound where
  exclusive := exclusive_set sound.exclusive
    (by simp [after, outside_free sound before]) fun other apart => Iff.rfl
  fifo := sound.fifo
  ready := ready_set (by rintro rfl; cases after) fun other apart => sound.ready other
  told more := told_set (sound.told more) quiet sleepless

theorem lock_sound (sound : channel.Sound) (free : channel.m = none) (inside : pc.inside = true)
    (quiet : (channel.pcs t).owes = false) (early : pc ≠ .taking) :
    ({ channel with m := some t }.setPc t pc).Sound where
  exclusive := exclusive_set sound.exclusive (by simp [inside]) fun other apart => by
    simp only [free, set_pc_m, Option.some.injEq, reduceCtorEq, false_iff]
    exact fun same => apart same.symm
  fifo := sound.fifo
  ready := ready_set (fun same => absurd same early) fun other apart => sound.ready other
  told more := told_set (sound.told more) quiet (by rintro rfl; cases inside)

theorem unlock_exclusive {pcs : Thread → ChannelPc T} {m : Option Thread}
    (exclusive : ∀ other, (pcs other).inside = true ↔ m = some other)
    (before : (pcs t).inside = true)
    (after : pc.inside = false) : ∀ other, (update pcs t pc other).inside = true ↔
    none = some other :=
  exclusive_set exclusive (by simp [after]) fun other apart => by
    rw [(exclusive t).mp before]
    simp only [Option.some.injEq, reduceCtorEq, iff_false]
    exact fun same => apart same.symm

omit [DecidableEq Thread] in
/-- `t` holds the mutex, so that nobody else is at `q_.front()`. -/
theorem others_not_taking (sound : channel.Sound) (inside : (channel.pcs t).inside = true)
    {q : List T} :
    ∀ other, other ≠ t → channel.pcs other = .taking → q ≠ [] := by
  intro other apart taking
  have holds := (sound.exclusive t).mp inside
  rw [taking_holds sound taking] at holds
  exact absurd (Option.some.inj holds) apart

theorem move_sound (sound : channel.Sound) (move : channel.Move t op after) : after.Sound := by
  cases move with
  | put element idle =>
      exact outside_sound sound (by rw [idle]; rfl) rfl (by rw [idle]; rfl) (by simp)
  | get idle => exact outside_sound sound (by rw [idle]; rfl) rfl (by rw [idle]; rfl) (by simp)
  | enter element waits free => exact lock_sound sound free rfl (by rw [waits]; rfl) (by simp)
  | look waits free =>
      have quiet : (channel.pcs t).owes = false := by
        rcases waits with first | again <;> simp [*, ChannelPc.owes]
      exact lock_sound sound free rfl quiet (by simp)
  | push element pushing =>
      have holds : (channel.pcs t).inside = true := by rw [pushing]; rfl
      refine ⟨exclusive_set sound.exclusive ?_ fun other apart => Iff.rfl, ?_, ?_, ?_⟩
      · simp [ChannelPc.inside, (sound.exclusive t).mp holds]
      · simp [sound.fifo]
      · exact ready_set (by simp) (others_not_taking sound holds)
      -- the one that has put will tell the others
      · exact fun more other asleep => ⟨t, by simp [ChannelPc.owes]⟩
  | unlock unlocking =>
      have holds : (channel.pcs t).inside = true := by rw [unlocking]; rfl
      refine ⟨unlock_exclusive sound.exclusive holds rfl, sound.fifo, ?_, ?_⟩
      · exact ready_set (by simp) fun other apart => sound.ready other
      · exact fun more other asleep => ⟨t, by simp [ChannelPc.owes]⟩
  | notifyAll notifying =>
      have stays (other : Thread) : (channel.awake.pcs other).inside =
          (channel.pcs other).inside := by
        simp only [awake]
        split <;> simp_all [ChannelPc.inside]
      refine ⟨fun other => ?_, sound.fifo, fun other taking => ?_, fun more other asleep => ?_⟩
      · by_cases same : other = t
        · subst same
          have outside := outside_free (t := other) sound (by rw [notifying]; rfl)
          simpa [ChannelPc.inside] using outside
        · rw [set_pc_other same, stays]
          exact sound.exclusive other
      · by_cases same : other = t
        · simp [same] at taking
        · rw [set_pc_other same] at taking
          refine sound.ready other ?_
          simp only [awake] at taking
          split at taking
          · cases taking
          · exact taking
      -- nobody sleeps any more
      · by_cases same : other = t
        · simp [same] at asleep
        · rw [set_pc_other same] at asleep
          simp only [awake] at asleep
          split at asleep
          · cases asleep
          · contradiction
  | sleep testing empty =>
      have holds : (channel.pcs t).inside = true := by rw [testing]; rfl
      refine ⟨unlock_exclusive sound.exclusive holds rfl, sound.fifo, ?_, fun more =>
        absurd empty more⟩
      exact ready_set (by simp) fun other apart => sound.ready other
  | test testing more =>
      have holds : (channel.pcs t).inside = true := by rw [testing]; rfl
      refine ⟨exclusive_set sound.exclusive ?_ fun other apart => Iff.rfl, sound.fifo,
        fun other taking => more, ?_⟩
      · simp [ChannelPc.inside, (sound.exclusive t).mp holds]
      · exact fun more => told_set (sound.told more) (by rw [testing]; rfl) (by simp)
  | take element rest taking queue =>
      have holds : (channel.pcs t).inside = true := by rw [taking]; rfl
      refine ⟨exclusive_set sound.exclusive ?_ fun other apart => Iff.rfl, ?_, ?_, ?_⟩
      · simp [ChannelPc.inside, (sound.exclusive t).mp holds]
      · simp [sound.fifo, queue]
      · exact ready_set (by simp) (others_not_taking sound holds)
      · exact fun _ => told_set (sound.told (by simp [queue])) (by rw [taking]; rfl) (by simp)
  | leave element leaving =>
      have holds : (channel.pcs t).inside = true := by rw [leaving]; rfl
      refine ⟨unlock_exclusive sound.exclusive holds rfl, sound.fifo, ?_, ?_⟩
      · exact ready_set (by simp) fun other apart => sound.ready other
      · exact fun more => told_set (sound.told more) (by rw [leaving]; rfl) (by simp)
  | wake asleep =>
      exact outside_sound sound (by rw [asleep]; rfl) rfl (by rw [asleep]; rfl) (by simp)

def Stays (t : Thread) (channel after : Channel Thread T) : Prop :=
  ∀ other, other ≠ t → after.pcs other = channel.pcs other ∨
    channel.pcs other = .asleep ∧ after.pcs other = .woken

theorem set_pc_stays (after : Channel Thread T) (same : after.pcs = channel.pcs) :
    Stays t channel (after.setPc t pc) :=
  fun _ apart => Or.inl ((set_pc_other apart).trans (congrFun same _))

theorem move_stays (move : channel.Move t op after) : Stays t channel after := by
  cases move with
  | notifyAll notifying =>
      intro other apart
      rw [set_pc_other apart]
      simp only [awake]
      split
      · exact Or.inr ⟨by assumption, rfl⟩
      · exact Or.inl rfl
  | _ => exact set_pc_stays _ rfl

/-- A thread in `Put` pushes what it holds and takes nothing. -/
theorem putter_moves (move : channel.Move t op after) (puts : (channel.pcs t).puts = true)
    (own : op.own = true) :
    (after.pcs t).puts = true ∧ after.popped = channel.popped ∧
      ∃ sent, after.pushed = channel.pushed ++ sent ∧
      sent ++ (after.pcs t).held = (channel.pcs t).held := by
  cases move with
  | put | get | wake => cases own
  | enter element waits free =>
      exact ⟨by simp [ChannelPc.puts], rfl, [], by simp, by simp [waits, ChannelPc.held]⟩
  | push element pushing =>
      exact ⟨by simp [ChannelPc.puts], rfl, [element], rfl, by simp [pushing, ChannelPc.held]⟩
  | unlock unlocking =>
      exact ⟨by simp [ChannelPc.puts], rfl, [], by simp, by simp [unlocking, ChannelPc.held]⟩
  | notifyAll notifying =>
      exact ⟨by simp [ChannelPc.puts], rfl, [], by simp, by simp [notifying, ChannelPc.held]⟩
  | look waits free => rcases waits with waits | waits <;> simp [waits, ChannelPc.puts] at puts
  | sleep stands | test stands | take _ _ stands | leave _ stands =>
      simp [stands, ChannelPc.puts] at puts

/-- A thread in `Get` puts nothing, and has in hand what it has popped. -/
theorem getter_moves (move : channel.Move t op after) (gets : (channel.pcs t).gets = true)
    (inner : op ≠ .leave) (noPut : ∀ element, op ≠ .put element) :
    (after.pcs t).gets = true ∧ after.pushed = channel.pushed ∧
      ∃ got, after.popped = channel.popped ++ got ∧
      (after.pcs t).taken = (channel.pcs t).taken ++ got := by
  cases move with
  | put element => exact absurd rfl (noPut element)
  | leave => exact absurd rfl inner
  | get idle => exact ⟨by simp [ChannelPc.gets], rfl, [], by simp, by simp [idle, ChannelPc.taken]⟩
  | look waits free =>
      refine ⟨by simp [ChannelPc.gets], rfl, [], by simp, ?_⟩
      rcases waits with waits | waits <;> simp [waits, ChannelPc.taken]
  | sleep testing | test testing =>
      exact ⟨by simp [ChannelPc.gets], rfl, [], by simp, by simp [testing, ChannelPc.taken]⟩
  | take element rest taking queue =>
      exact ⟨by simp [ChannelPc.gets], rfl, [element], rfl, by simp [taking, ChannelPc.taken]⟩
  | wake asleep =>
      exact ⟨by simp [ChannelPc.gets], rfl, [], by simp, by simp [asleep, ChannelPc.taken]⟩
  | enter _ stands | push _ stands | unlock stands | notifyAll stands =>
      simp [stands, ChannelPc.gets] at gets

def act (channel : Channel Thread T) (label : Thread × ChannelOp T) : Option (Channel Thread T) :=
  channel.step label.1 label.2

def Reached : Channel Thread T → Prop := Reachable (· = new) (graph act)

theorem reached_sound (reached : channel.Reached) : channel.Sound := by
  refine reachable_preserves Sound ?_ ?_ reached
  · rintro _ rfl
    exact new_sound
  · intro before label after sound step
    exact move_sound sound (step_move step)

/-- In every interleaving one thread at most is at the queue, what was put comes out in
this order with nothing lost or doubled, and no thread takes from an empty queue. -/
theorem channel_delivers (reached : channel.Reached) :
    channel.pushed = channel.popped ++ channel.q ∧
      (∀ s t, (channel.pcs s).inside = true → (channel.pcs t).inside = true → s = t) ∧
        ∀ t, channel.pcs t = .taking → ∃ element rest, channel.q = element :: rest := by
  have sound := reached_sound reached
  refine ⟨sound.fifo, fun s t first second => ?_, fun t taking => ?_⟩
  · have holds := (sound.exclusive s).mp first
    rw [(sound.exclusive t).mp second] at holds
    exact (Option.some.inj holds).symm
  · exact List.exists_cons_of_ne_nil (sound.ready t taking)

def handOver : List (Bool × ChannelOp Nat) :=
  [(true, .get), (true, .lock), (true, .test), (false, .put 15445), (false, .lock), (false, .push),
    (false, .unlock), (false, .notifyAll), (true, .lock), (true, .test), (true, .take),
      (true, .leave), (true, .get), (true, .lock), (true, .test)]

def handedOver : Channel Bool Nat := (handOver.foldlM act new).getD new

theorem handed_over_reached : handedOver.Reached :=
  ⟨new, handOver, rfl, run_of_fold rfl⟩

theorem hand_over_delivers :
    handedOver.pushed = handedOver.popped ++ handedOver.q ∧
      (∀ s t, (handedOver.pcs s).inside = true → (handedOver.pcs t).inside = true → s = t) ∧
        ∀ t, handedOver.pcs t = .taking → ∃ element rest, handedOver.q = element :: rest :=
  channel_delivers handed_over_reached

theorem inside_moves (sound : channel.Sound) (inside : (channel.pcs t).inside = true) :
    ∃ op : ChannelOp T, op.own = true ∧ (channel.step t op).isSome = true := by
  cases stands : channel.pcs t with
  | pushing element => exact ⟨.push, rfl, by simp [step, stands]⟩
  | unlocking => exact ⟨.unlock, rfl, by simp [step, stands]⟩
  | testing =>
      refine ⟨.test, rfl, ?_⟩
      simp only [step, stands]
      split <;> rfl
  | taking =>
      obtain ⟨element, rest, queue⟩ := List.exists_cons_of_ne_nil (sound.ready t stands)
      exact ⟨.take, rfl, by simp [step, stands, queue]⟩
  | leaving element => exact ⟨.leave, rfl, by simp [step, stands]⟩
  | _ => simp [stands, ChannelPc.inside] at inside

/-- While the mutex is free, a thread that is neither idle nor asleep can go on. -/
theorem outside_moves (sound : channel.Sound) (free : channel.m = none)
    (busy : channel.pcs t ≠ .idle) (sleepless : channel.pcs t ≠ .asleep) :
    ∃ op : ChannelOp T, op.own = true ∧ (channel.step t op).isSome = true := by
  cases stands : channel.pcs t with
  | idle => exact absurd stands busy
  | asleep => exact absurd stands sleepless
  | putting element => exact ⟨.lock, rfl, by simp [step, stands, free]⟩
  | getting => exact ⟨.lock, rfl, by simp [step, stands, free]⟩
  | woken => exact ⟨.lock, rfl, by simp [step, stands, free]⟩
  | notifying => exact ⟨.notifyAll, rfl, by simp [step, stands]⟩
  | _ => exact inside_moves sound (by simp [stands, ChannelPc.inside])

def Stuck (channel : Channel Thread T) : Prop :=
  ∀ t (op : ChannelOp T), op.own = true → channel.step t op = none

theorem stuck_quiet (sound : channel.Sound) (stuck : channel.Stuck) :
    channel.m = none ∧ ∀ t, channel.pcs t = .idle ∨ channel.pcs t = .asleep ∧ channel.q = [] := by
  have still {t : Thread} (moves : ∃ op : ChannelOp T, op.own = true ∧
      (channel.step t op).isSome = true) :
      False := by
    obtain ⟨op, own, some⟩ := moves
    rw [stuck t op own] at some
    cases some
  have free : channel.m = none := by
    cases holds : channel.m with
    | none => rfl
    | some s => exact (still (inside_moves sound ((sound.exclusive s).mpr holds))).elim
  have quiet (t : Thread) : channel.pcs t = .idle ∨ channel.pcs t = .asleep := by
    by_cases idle : channel.pcs t = .idle
    · exact Or.inl idle
    · by_cases asleep : channel.pcs t = .asleep
      · exact Or.inr asleep
      · exact (still (outside_moves sound free idle asleep)).elim
  refine ⟨free, fun t => (quiet t).imp_right fun asleep => ⟨asleep, ?_⟩⟩
  -- with something in the queue somebody would have to tell the sleeper
  by_contra more
  obtain ⟨s, owes⟩ := sound.told more t asleep
  rcases quiet s with idle | sleeps
  · simp [idle, ChannelPc.owes] at owes
  · simp [sleeps, ChannelPc.owes] at owes

/-- No wake-up is lost and no two threads block each other: where no thread can go on
inside its call, every `Put` has returned, and a `Get` that has not waits on an empty queue
and all that was put has been taken. -/
theorem nobody_left_waiting (reached : channel.Reached) (stuck : channel.Stuck) :
    ∀ t, channel.pcs t ≠ .idle → channel.pcs t = .asleep ∧ channel.pushed = channel.popped := by
  intro t busy
  have sound := reached_sound reached
  obtain ⟨asleep, empty⟩ := ((stuck_quiet sound stuck).2 t).resolve_left busy
  refine ⟨asleep, ?_⟩
  rw [sound.fifo, empty, List.append_nil]

theorem handed_over_stuck : handedOver.Stuck := by
  rintro (_ | _) op own <;> cases op <;> first | rfl | cases own

theorem handed_over_waits :
    handedOver.pcs true ≠ .idle ∧ handedOver.pcs true = .asleep ∧
      handedOver.pushed = handedOver.popped :=
  ⟨by decide, nobody_left_waiting handed_over_reached handed_over_stuck true (by decide)⟩

end Channel

end BusTub
