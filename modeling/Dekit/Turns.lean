import Dekit.Freezing

namespace Dekit

open Dekit.Graph

namespace Kernel

variable {τ : Type} [Task τ] {k k' : Kernel τ}

section valid

theorem valid_thaw (h : Valid k.graph) : Valid k.thaw.graph := h.thaw

omit [Task τ] in
theorem valid_beginQuit (h : Valid k.graph) : Valid k.beginQuit.1.graph := h.beginQuit

omit [Task τ] in
theorem valid_answerIf (h : Valid k.graph) (reply : Option ReplyId) (a : Answer) :
    Valid (k.answerIf reply a).graph := by
  cases reply with
  | none => exact h
  | some reply => exact h.same rfl rfl rfl rfl

theorem valid_quit (h : Valid k.graph) (save : Bool) (reply : Option ReplyId) :
    Valid (k.quit save reply).1.graph := by
  unfold quit
  split
  · exact (valid_answerIf h reply _).freeze .quit
  · refine valid_answerIf (valid_beginQuit ?_) _ _
    split
    · exact valid_thaw h
    · exact h

theorem valid_runCommand (h : Valid k.graph) (msg : KernelMessage τ) :
    Valid (k.runCommand msg).1.graph := by
  have hp := h.perform msg.sender msg.command
  obtain ⟨sender, command⟩ := msg
  unfold runCommand
  cases command with
  | quit => exact valid_quit h true none
  | quitWithoutSave => exact valid_quit h false none
  | quitWithin save reply => exact valid_quit h save (some reply)
  | freezeTimeout number =>
    simp only
    split
    · exact valid_beginQuit (valid_thaw h)
    · exact h
  | thaw => exact valid_thaw h
  | _ => exact hp

theorem valid_finishFreeze (h : Valid k.graph) : Valid k.finishFreeze.1.graph := by
  have hf := h.finishFreeze
  unfold finishFreeze
  generalize k.graph.finishFreezeIfComplete = r at hf ⊢
  obtain ⟨g, saved⟩ := r
  cases saved with
  | none => exact hf
  | some snapshot => exact valid_beginQuit (k := Kernel.thaw { k with graph := g, saved := _ }) hf.thaw

theorem valid_dispatchNow (h : Valid k.graph) (msg : KernelMessage τ) :
    Valid (k.dispatchNow msg).1.graph := by
  have hr := valid_runCommand (k := { k with handled := k.handled ++ [msg] }) h msg
  unfold dispatchNow
  generalize ({ k with handled := k.handled ++ [msg] } : Kernel τ).runCommand msg = r at hr ⊢
  obtain ⟨k', exit⟩ := r
  cases exit with
  | none => exact valid_finishFreeze hr
  | some exit => exact hr

theorem valid_dispatch (h : Valid k.graph) (msg : KernelMessage τ) : Valid (k.dispatch msg).1.graph := by
  unfold dispatch
  cases k.graph.frozen with
  | none => exact valid_dispatchNow h msg
  | some frozen =>
    simp only
    cases msg.command.disposition k.graph.freezingForQuit with
    | now => exact valid_dispatchNow h msg
    | covered =>
      unfold cover
      cases msg.command <;> first | exact h | exact valid_answerIf h _ _
    | deferred => exact h.same rfl rfl rfl rfl

theorem valid_afterDispatch (h : Valid k.graph) : Valid k.afterDispatch.graph := by
  unfold afterDispatch
  split
  · exact h
  · exact h.settle.same rfl rfl rfl rfl

theorem valid_turn (h : Valid k.graph) (now : Instant) (msg : KernelMessage τ) :
    Valid (k.turn now msg).graph := by
  have hd := valid_dispatch (k := { k with graph := { k.graph with now } }) (h.same rfl rfl rfl rfl) msg
  unfold turn
  generalize ({ k with graph := { k.graph with now } } : Kernel τ).dispatch msg = r at hd ⊢
  obtain ⟨k', exit⟩ := r
  cases exit with
  | true => exact hd
  | false => exact valid_afterDispatch hd

omit [Task τ] in
theorem valid_alloc {g : Graph τ} (h : Valid g) : Valid g.allocId.2 :=
  ⟨h.sound.same rfl rfl rfl, Nat.lt_succ_of_lt h.next⟩

omit [Task τ] in
theorem valid_new (hasher : Hasher) (now : Instant) : Valid (Graph.new hasher now : Graph τ) := by
  have hempty : (Graph.new hasher now : Graph τ).view = ⟨false, ∅, fun _ => none, fun _ => ∅, fun _ => ∅, ∅⟩ := by
    simp only [view, Graph.new, Finmap.lookup_empty, Option.map_none, Finmap.keys_empty]
  refine ⟨⟨?_, ?_, ?_, ?_, ⟨rfl, List.nodup_nil⟩, fun e he => by cases he⟩, Nat.one_pos⟩ <;> rw [hempty]
  · refine ⟨fun a b => by simp, fun a b h => by simp at h, fun a b h => by simp at h, by simp, ?_, fun x => by simp,
      by simp⟩
    intro a ha
    rcases Relation.TransGen.head'_iff.mp ha with ⟨b, hb, -⟩
    simp [View.Dep] at hb
  · exact ⟨fun x n hn => (by cases hn), fun x n hn => (by cases hn)⟩
  · exact fun x n hn => by cases hn
  · exact fun x n hn => by cases hn

theorem valid_booted (h : Booted k) : Valid k.graph := by
  induction h with
  | new hasher now => exact valid_new hasher now
  | saveOnQuit _ ih => exact ih
  | alloc _ ih => exact valid_alloc ih
  | install r _ ih => exact ih.runs (Runs.registerTaskWithId _ r.allocated r.def' r.factory none)
  | @restore k now nextTaskId tasks hnext _ _ ih =>
    have hset : Valid { k.graph with nextTaskId, now } :=
      ⟨ih.sound.same rfl rfl rfl, Nat.pos_of_ne_zero hnext⟩
    unfold restore
    simp only
    split
    · exact hset
    · exact hset.runs (Runs.registerTasks _ tasks)

theorem valid_of_reachable (h : Reachable k) : Valid k.graph := by
  induction h with
  | start hb => exact valid_afterDispatch (valid_booted hb)
  | step _ hs ih =>
    cases hs with
    | replayed | received | expired | alarm =>
      refine valid_turn ?_ _ _
      exact ih
    | alloc => exact valid_alloc ih

end valid

end Kernel

end Dekit
