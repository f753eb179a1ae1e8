import DnsResolver.Array.ArrayDrain
import DnsResolver.Lib.Channel

/-!
# The queue is a channel

Seen from outside, `array_put`, `array_get` and `array_free` are the requests of a channel of
capacity `ARRAY_SIZE - 1`: each call takes effect at one statement, between the moment it is made
and the moment it returns, and returns what the channel replies (`channel_simulates`). An
`array_put` takes effect when it stores its pointer, or when it is refused and releases the lock, an
`array_get` when it moves `head` on, or finds that there will be nothing any more. This is so of the
runs without false alarms: where a wait of the drain loop ends spuriously, `array_free` destroys the
lock of a queue that still has elements. -/

namespace DnsResolver
open Function

variable {T α : Type} {N : Nat} {t : T} {s : ArrayState T α} {o : Out T α} {c : Call α}

/-- The request that a call makes. -/
def Op.request : Op α → Channel.Request α
  | .put x => .send x
  | .get => .receive
  | .free => .close

/-- Whether a call has taken effect, and how. -/
def Call.caller : Call α → Channel.Caller α
  | .idle => .idle
  | .put x pc => if pc.stored then .sent x else .asks (.send x)
  | .putDone x .success => .sent x
  | .putDone x .shutdown => .refused x
  | .get pc =>
    match pc.got with
    | some x => .received x
    | none => .asks .receive
  | .getDone (some x) => .received x
  | .getDone none => .ended
  | .free .lock | .free .setShutdown => .asks .close
  | .free _ => .closing
  | .freeDone => .closed

@[simp] theorem Call.caller_wake {r : WaitResult} : (c.wake r).caller = c.caller := by
  unfold Call.wake
  split <;> rfl

@[simp] theorem Op.start_caller (p : Op α) : p.start.caller = .asks p.request := by
  cases p <;> rfl

/-- A call as its caller knows it: before it has taken effect, or when it has returned. -/
def Call.ofCaller : Channel.Caller α → Call α
  | .idle => .idle
  | .asks (.send x) => .put x .lock
  | .asks .receive => .get .fetchAdd
  | .asks .close => .free .lock
  | .closing => .free .drain
  | .sent x => .putDone x .success
  | .refused x => .putDone x .shutdown
  | .received x => .getDone (some x)
  | .ended => .getDone none
  | .closed => .freeDone

@[simp] theorem Call.caller_ofCaller (k : Channel.Caller α) : (Call.ofCaller k).caller = k := by
  cases k with
  | asks r => cases r <;> rfl
  | _ => rfl

theorem Call.ofCaller_caller (h : c.done = true) : Call.ofCaller c.caller = c := by
  cases c with
  | putDone x r => cases r <;> rfl
  | getDone r => cases r <;> rfl
  | freeDone => rfl
  | _ => cases h

theorem Call.caller_replied (h : c.done = true) : c.caller.replied = true := by
  cases c with
  | putDone x r => cases r <;> rfl
  | getDone r => cases r <;> rfl
  | freeDone => rfl
  | _ => cases h

namespace Monitor

/-- The channel that a queue stands for. -/
def channel (m : Monitor T α) : Channel T α := ⟨m.items, m.arr.shutdown, fun u => (m.call u).caller⟩

/-- What a step of the queue is for the channel. -/
def Act.request : Act T α → Channel.Act T α
  | .begin t p => .ask t p.request
  | .move t _ => .run t
  | .leave t => .go t

variable [DecidableEq T] {m m' : Monitor T α} {mv : Move T}

theorem callers_update (c : Call α) : (fun u => (update m.call t c u).caller) =
    update (fun u => (m.call u).caller) t c.caller := by
  funext u
  by_cases hu : u = t
  · subst hu
    simp
  · simp [hu]

/-- A caller that is where it was is not seen. -/
theorem channel_same {xs : List α} {b : Bool} {k : Channel.Caller α} (hi : xs = m.items)
    (hs : b = m.arr.shutdown) (hk : k = (m.call t).caller) :
    (⟨xs, b, update (fun u => (m.call u).caller) t k⟩ : Channel T α) = m.channel := by
  rw [hi, hs, hk]
  exact congrArg (Channel.mk _ _) (update_eq_self t fun u => (m.call u).caller)

/-- Only the caller that begins or ends a call is seen to change. -/
theorem channel_begin (p : Op α) :
    (m.begin t p).channel = m.channel.setCaller t (.asks p.request) := by
  simp only [channel, Channel.setCaller, begin, callers_update, Op.start_caller]
  rfl

theorem channel_leave : (m.leave t).channel = m.channel.setCaller t .idle := by
  simp only [channel, Channel.setCaller, leave, callers_update]
  rfl

variable [Fintype T]

/-- A statement is seen in the caller that makes it, in the flag and in what is stored or taken. -/
theorem channel_run {w : Option T} {call' : T → Call α} (hw : wakeUp m.call o.wake w = some call') :
    (⟨o.arr, update call' t o.call, m.ghost.record o.event⟩ : Monitor T α).channel =
      ⟨(⟨m.arr, m.call, m.ghost.record o.event⟩ : Monitor T α).items, o.arr.shutdown,
        update (fun u => (m.call u).caller) t o.call.caller⟩ := by
  have hc := wakeUp_congr (f := Call.caller) (fun _ => Call.caller_wake) hw
  have hm : (fun u => (call' u).caller) = fun u => (m.call u).caller := funext hc
  have hu := callers_update (m := ⟨o.arr, call', m.ghost⟩) (t := t) o.call
  simp only [channel, hu, hm]
  rfl

/-- A statement of a call is not seen, or lets the call take effect. -/
theorem Inv.channel_move (H : m.Inv N) (h : m.move N t mv = some m')
    (he : m.call t = .free .destroy → m.arr.empty = true) :
    m'.channel = m.channel ∨ m.channel.run (N - 1) t = some m'.channel := by
  rcases move_cases h with ⟨o, w, call', hs, hw, -, rfl⟩ | ⟨r, v, -, -, -, rfl⟩
  · have ha := H.asserts t
    have hpop := @Inv.pop T α N m H
    rw [channel_run hw]
    have hcall : m.channel.caller t = (m.call t).caller := rfl
    generalize hc : m.call t = c at hs ha he hcall
    cases hs with
    | @put_store x =>
      right
      have hne : ¬ m.items.length + 1 = N := by
        rw [← H.full_iff, Bool.not_eq_true]
        exact ha.2
      have hlen := H.ring.length_lt
      have hi : m.channel.items.length < N - 1 := by
        change m.items.length < N - 1
        omega
      rw [Channel.run_send hcall ha.1 hi]
      have hst : (⟨m.arr, m.call, m.ghost.record (some (.store x))⟩ : Monitor T α).items =
          m.items ++ [x] := H.items_store rfl rfl
      rw [hst]
      rfl
    | put_refuse =>
      right
      exact Channel.run_refuse hcall ha
    | get_refuse =>
      right
      exact Channel.run_end hcall ha.1 (H.empty_iff.1 ha.2)
    | get_take_last hx | get_take hx =>
      right
      obtain ⟨hi, -, -⟩ := hpop ha hx
      exact Channel.run_receive hcall hi
    | free_setShutdown =>
      right
      exact Channel.run_close hcall
    | free_destroy =>
      right
      exact Channel.run_closed hcall (H.empty_iff.1 (he rfl))
    | _ => exact .inl (channel_same rfl rfl (congrArg Call.caller hc).symm)
  · left
    have hu := callers_update (m := m) (t := t) ((m.call t).wake r)
    simp only [channel, hu, Call.caller_wake]
    exact channel_same rfl rfl rfl

/-- Each step of the queue is a step of the channel, or a statement that is not seen. -/
theorem Inv.channel_step {a : Act T α} (H : m.Inv N) (h : m.step N a = some m') (he : m.Told) :
    m.channel.step (N - 1) a.request = some m'.channel ∨
      m'.channel = m.channel ∧ ∃ t mv, a = .move t mv := by
  cases a with
  | begin t p =>
    obtain ⟨ht, rfl⟩ := begin_cases h
    have hc : m.channel.caller t = .idle := congrArg Call.caller ht
    left
    rw [Act.request, Channel.step, hc, channel_begin]
  | move t mv =>
    have hd (ht : m.call t = .free .destroy) : m.arr.empty = true := he.told t (by rw [ht]; rfl)
    rcases H.channel_move h hd with hm | hm
    · exact .inr ⟨hm, t, mv, rfl⟩
    · exact .inl hm
  | leave t =>
    obtain ⟨ht, rfl⟩ := leave_cases h
    left
    rw [channel_leave]
    exact if_pos (Call.caller_replied ht)

/-- What the callers see of a step. -/
def visible (m : Monitor T α) (a : Act T α) : Option (Channel.Event T α) :=
  Channel.visible m.channel a.request

/-- The channel makes every step of the queue that is seen, and lets the requests take effect. -/
theorem channel_simulates (hN : 2 ≤ N) :
    TransitionSystem.WeakSimulation ((system T α N).restrict NoFalseAlarm) visible
      (Channel.system T α (N - 1)) Channel.visible fun m c =>
        ((system T α N).restrict NoFalseAlarm).Reachable m ∧ m.channel = c where
  init := by
    rintro _ rfl
    exact ⟨_, rfl, .init rfl, rfl⟩
  step := by
    rintro m a m' _ h ⟨H, rfl⟩
    have hi := inv_reachable hN H.of_restrict
    rcases hi.channel_step h.2 (told_reachable hN H) with hs | ⟨hs, t, mv, rfl⟩
    · exact ⟨_, .single hs, H.step h, rfl⟩
    · rw [← hs]
      exact ⟨_, .nil, H.step h, rfl⟩

end Monitor
end DnsResolver
