import Dekit.Gate
import Dekit.Guarantees

namespace Dekit

namespace KernelCommand

variable {τ : Type} {c : KernelCommand τ} {b : Bool}

theorem disposition_false (h : c.disposition b = .deferred) : c.disposition false = .deferred := by
  cases b with
  | false => exact h
  | true => cases c with
    | quitWithin save reply => cases save <;> rfl
    | _ => first | rfl | cases h

theorem not_intent_of_quits {first : Bool} (h : c.quits = some first) : c.isIntent = false := by
  cases c with
  | quitWithin save reply => cases save <;> rfl
  | _ => first | rfl | cases h

theorem reachesKernel_of_quits {first : Bool} (h : c.quits = some first) : c.reachesKernel = true := by
  cases c <;> first | rfl | cases h

theorem disposition_of_saves (h : c.quits = some true) : c.disposition b ≠ .now := by
  cases c with
  | quit => cases b <;> simp [disposition]
  | quitWithin save reply =>
    obtain rfl := Option.some.inj h
    cases b <;> simp [disposition]
  | _ => cases h

theorem quits_of_disposition (h : c.disposition false = .deferred) (h' : c.disposition true ≠ .deferred) :
    ∃ first, c.quits = some first := by
  cases c with
  | quit | quitWithoutSave | quitWithin => exact ⟨_, rfl⟩
  | _ => first | exact (h' rfl).elim | cases h

theorem isIntent_iff : c.isIntent = true ↔ c.disposition true = .deferred ∧ c.disposition false = .deferred := by
  simp [isIntent]

end KernelCommand

namespace Gate

variable {τ : Type} {save dead : Bool} {g g₁ g' : Gate τ} {c : KernelCommand τ} {msg : KernelMessage τ} {n : ℕ}

/-- How far on its way out the kernel is: the quit, and the freeze's number and whom it answers. -/
def phase (g : Gate τ) : Bool × Option (ℕ × Option FreezeReply) :=
  (g.quitting, g.hold.map (fun h => (h.number, h.reply)))

section phase

theorem saving_iff : g.Saving n ↔ g.phase.2 = some (n, some .quit) := by
  constructor
  · rintro ⟨h, hh, hn, hr⟩
    simp [phase, hh, hn, hr]
  · intro hp
    obtain ⟨h, hh, he⟩ := Option.map_eq_some_iff.mp hp
    exact ⟨h, hh, congrArg Prod.fst he, congrArg Prod.snd he⟩

theorem Finishes.phase (h : Finishes g g') : g'.phase = g.phase ∨
    (∃ q n reply, g.phase = (q, some (n, some (.rpc reply))) ∧ g'.phase = (q, some (n, none))) ∨
    ∃ n, g.phase.2 = some (n, some .quit) ∧ g'.phase = (true, none) := by
  cases h with
  | waits => exact .inl rfl
  | @answers h reply hh hr => exact .inr (.inl ⟨g.quitting, h.number, reply, by simp [Gate.phase, hh, hr], rfl⟩)
  | saves hs => exact .inr (.inr ⟨_, saving_iff.mp hs, rfl⟩)

theorem Dispatches.beside (h : Dispatches save dead g msg g') (hc : msg.command.reachesKernel = false)
    (hg : g.phase ≠ (false, none)) : ∃ g₁ : Gate τ, g₁.phase = g.phase ∧ Finishes g₁ g' := by
  cases h with
  | @deferred h hh _ => exact ⟨_, by simp [phase, hh], .waits⟩
  | covered _ _ => exact ⟨_, rfl, .waits⟩
  | handled hd hp hf =>
    cases hp with
    | plain _ => exact ⟨g.take msg, rfl, hf⟩
    | freezes reply _ hhold hquit =>
      apply absurd _ hg
      have hhold : g.hold = none := hhold
      have hquit : g.quitting = false := hquit
      simp [phase, hhold, hquit]
    | thaws he | late he _ | timesOut he _ =>
      rw [he] at hc
      cases hc
    | saves he _ _ | drops he _ _ | quits he _ _ =>
      rw [KernelCommand.reachesKernel_of_quits he] at hc
      cases hc

theorem Dispatches.begun (h : Dispatches save dead g msg g') (hc : msg.command.reachesKernel = false)
    (hg : g.phase = (true, none)) : g'.phase = (true, none) := by
  obtain ⟨g₁, hp, hf⟩ := h.beside hc (by rw [hg]; simp)
  rw [hg] at hp
  rcases hf.phase with he | ⟨q, n, reply, he, -⟩ | ⟨n, he, -⟩
  · exact he.trans hp
  · rw [hp] at he
    cases he
  · rw [hp] at he
    cases he

theorem Dispatches.saving (h : Dispatches save dead g msg g') (hc : msg.command.reachesKernel = false)
    (hg : g.phase = (false, some (n, some .quit))) :
    g'.phase = (false, some (n, some .quit)) ∨ g'.phase = (true, none) := by
  obtain ⟨g₁, hp, hf⟩ := h.beside hc (by rw [hg]; simp)
  rw [hg] at hp
  rcases hf.phase with he | ⟨q, m, reply, he, -⟩ | ⟨m, -, he⟩
  · exact .inl (he.trans hp)
  · rw [hp] at he
    cases he
  · exact .inr he

theorem Dispatches.stuck (h : Dispatches save dead g msg g') (hc : msg.command.reachesKernel = false)
    (hg : g.phase = (false, some (n, none))) : g'.phase = (false, some (n, none)) := by
  obtain ⟨g₁, hp, hf⟩ := h.beside hc (by rw [hg]; simp)
  rw [hg] at hp
  rcases hf.phase with he | ⟨q, m, reply, he, -⟩ | ⟨m, he, -⟩
  · exact he.trans hp
  · rw [hp] at he
    cases he
  · rw [hp] at he
    cases he

theorem Dispatches.saves (h : Dispatches save dead g msg g') (hc : msg.command.quits = some true)
    (hsave : save = true) (hg : g.phase = (false, none)) :
    if dead then g'.phase = (false, some (g.freezes + 1, none))
    else g'.phase = (false, some (g.freezes + 1, some .quit)) ∨ g'.phase = (true, none) := by
  obtain ⟨hquit, hhold⟩ := Prod.mk.inj hg
  have hhold : g.hold = none := Option.map_eq_none_iff.mp hhold
  have hfirst (f : Bool) (he : msg.command.quits = some f) : f = true :=
    (Option.some.inj (hc.symm.trans he)).symm
  have hnot (f : Bool) (he : msg.command.quits = some f)
      (hf : (f && save && !(g.take msg).quitting) = false) : False := by
    have hquit : (g.take msg).quitting = false := hquit
    simp [hfirst f he, hsave, hquit] at hf
  cases h with
  | deferred hh _ | covered hh _ =>
    rw [hhold] at hh
    cases hh
  | handled _ hp hf =>
    cases hp with
    | plain he =>
      rw [KernelCommand.reachesKernel_of_quits hc] at he
      cases he
    | freezes _ he | thaws he | late he _ | timesOut he _ =>
      rw [he] at hc
      cases hc
    | drops he hn _ | quits he hn _ => exact (hnot _ he hn).elim
    | saves _ _ _ =>
      have hp : ((g.take msg).beginSave dead).phase =
          (false, some (g.freezes + 1, if dead then none else some .quit)) := by
        exact congrArg (fun q => (q, _)) hquit
      cases dead with
      | false =>
        rcases hf.phase with he | ⟨q, m, reply, he, -⟩ | ⟨m, -, he⟩
        · exact .inl (he.trans hp)
        · rw [hp] at he
          cases he
        · exact .inr he
      | true =>
        rcases hf.phase with he | ⟨q, m, reply, he, -⟩ | ⟨m, he, -⟩
        · exact he.trans hp
        · rw [hp] at he
          cases he
        · rw [hp] at he
          cases he

theorem Dispatches.timeout (h : Dispatches save dead g msg g') (hc : msg.command = .freezeTimeout n) :
    (g.phase.2 = some (n, some .quit) ∧ g'.phase = (true, none)) ∨
      (g.phase.2 ≠ some (n, some .quit) ∧ ∃ g₁ : Gate τ, g₁.phase = g.phase ∧ Finishes g₁ g') := by
  cases h with
  | deferred _ hd =>
    rw [hc] at hd
    cases hd
  | covered _ hd =>
    rw [hc] at hd
    cases hd
  | handled hd hp hf =>
    rw [hc] at hp
    cases hp with
    | plain he => cases he
    | freezes _ he | thaws he => cases he
    | saves he | drops he | quits he => cases he
    | late he hs =>
      obtain rfl := KernelCommand.freezeTimeout.inj he
      exact .inr ⟨fun hp => hs (saving_iff.mpr hp), g.take msg, rfl, hf⟩
    | timesOut he hs =>
      obtain rfl := KernelCommand.freezeTimeout.inj he
      refine .inl ⟨saving_iff.mp hs, ?_⟩
      rcases hf.phase with he | ⟨q, m, reply, he, -⟩ | ⟨m, he, -⟩
      · exact he
      · cases he
      · cases he

end phase

section held

def Held (g : Gate τ) : Prop := g.quitting = true ∨ g.hold.isSome = true

theorem Held.dispatches (hg : g.Held) (h : Dispatches save dead g msg g')
    (hok : msg.command = .thaw → g.hold.isSome = true → g.quitting = true) : g'.Held := by
  cases h with
  | deferred => exact .inr rfl
  | covered => exact hg
  | @handled g₁ _ hd hp hf =>
    have hrun : g₁.Held := by
      cases hp with
      | plain | late => exact hg
      | freezes | saves => exact .inr rfl
      | timesOut | drops | quits => exact .inl rfl
      | thaws he => exact .inl (hg.elim id (hok he))
    cases hf with
    | waits => exact hrun
    | answers => exact .inr rfl
    | saves => exact .inl rfl

end held

section order

def intents (l : List (KernelMessage τ)) : List (KernelMessage τ) := l.filter (·.command.isIntent)

def queue (g : Gate τ) : List (KernelMessage τ) := g.handled ++ g.deferred ++ g.replay

theorem intents_append (l l' : List (KernelMessage τ)) : intents (l ++ l') = intents l ++ intents l' :=
  List.filter_append ..

theorem intents_single (h : msg.command.isIntent = false) : intents [msg] = [] := by
  simp [intents, h]

def Level (g : Gate τ) : Prop := intents g.deferred = [] ∨ intents g.replay = []

theorem intents_thaw (h : g.Level) : intents g.thaw.queue = intents g.queue := by
  have ht : g.thaw.queue = g.handled ++ [] ++ (g.replay ++ g.deferred) := rfl
  rw [ht, queue]
  simp only [intents_append]
  rcases h with h | h <;> simp only [h, List.nil_append, List.append_nil] <;> simp [intents]

theorem deferred_none (h : g.hold = none) : g.deferred = [] := by
  simp [deferred, h]

theorem intents_finishes (h : Finishes g g') (hl : g.Level) : intents g'.queue = intents g.queue := by
  cases h with
  | waits => rfl
  | @answers h reply hh hr =>
    have hd : deferred { g with hold := some { h with reply := none } } = g.deferred := by
      simp [deferred, hh]
    simp only [queue, hd]
  | saves hs => exact intents_thaw hl

theorem level_of_hold (h : g.hold = none) : g.Level := by
  left
  rw [deferred_none h]
  rfl

theorem level_of_replay (h : g.replay = []) : g.Level := by
  right
  rw [h]
  rfl

theorem intents_take (hd : g.hold = none ∨ msg.command.disposition g.forQuit = .now) :
    intents (g.take msg).queue = intents (g.handled ++ g.deferred ++ msg :: g.replay) := by
  have ht : (g.take msg).queue = g.handled ++ [msg] ++ g.deferred ++ g.replay := rfl
  rw [ht, ← List.singleton_append (l := g.replay)]
  simp only [intents_append]
  rcases hd with hd | hd
  · rw [deferred_none hd]
    simp [intents]
  · have hnot : msg.command.isIntent = false := by
      rw [Bool.eq_false_iff]
      intro hi
      obtain ⟨ht, hf⟩ := KernelCommand.isIntent_iff.mp hi
      cases hq : g.forQuit with
      | true => rw [hq, ht] at hd; cases hd
      | false => rw [hq, hf] at hd; cases hd
    simp [intents_single hnot]

theorem intents_performs (hd : g.hold = none ∨ msg.command.disposition g.forQuit = .now)
    (hin : g.replay = [] ∨ msg.command.disposition false = .deferred)
    (hok : g.forQuit = true → msg.command.quits = some false → g.Level)
    (h : Performs save dead (g.take msg) msg.command g₁) :
    intents g₁.queue = intents (g.take msg).queue ∧ g₁.Level := by
  have hreplay (hc : msg.command.disposition false ≠ .deferred) : (g.take msg).Level :=
    level_of_replay (hin.resolve_right hc)
  have hfree (hq : g.forQuit = false) (hc : msg.command.disposition false = .deferred) : g.hold = none := by
    rcases hd with hd | hd
    · exact hd
    · rw [hq, hc] at hd
      cases hd
  cases h with
  | plain hc =>
    refine ⟨rfl, ?_⟩
    rcases hin with hr | hc'
    · exact level_of_replay hr
    · cases hq : g.forQuit with
      | false => exact level_of_hold (hfree hq hc')
      | true =>
        rcases hd with hd | hd
        · exact level_of_hold hd
        · rw [hq] at hd
          obtain ⟨first, hf⟩ := KernelCommand.quits_of_disposition hc' (by rw [hd]; simp)
          rw [KernelCommand.reachesKernel_of_quits hf] at hc
          cases hc
  | freezes reply hc hhold _ =>
    have hd : (g.take msg).deferred = [] := deferred_none hhold
    refine ⟨?_, .inl rfl⟩
    simp only [queue, hd]
    rfl
  | thaws hc =>
    exact ⟨intents_thaw (hreplay (by rw [hc]; simp [KernelCommand.disposition])), level_of_hold rfl⟩
  | late hc _ => exact ⟨rfl, hreplay (by rw [hc]; simp [KernelCommand.disposition])⟩
  | timesOut hc _ =>
    exact ⟨intents_thaw (hreplay (by rw [hc]; simp [KernelCommand.disposition])), level_of_hold rfl⟩
  | saves hc _ _ =>
    have hhold : g.hold = none := hd.resolve_right (KernelCommand.disposition_of_saves hc)
    have hdef : (g.take msg).deferred = [] := deferred_none hhold
    refine ⟨?_, .inl rfl⟩
    simp only [queue, hdef]
    rfl
  | @drops first hc _ hq =>
    have hq : g.forQuit = true := hq
    have hfirst : first = false := by
      rcases hd with hd | hd
      · rw [forQuit, hd] at hq
        cases hq
      · rw [hq] at hd
        generalize msg.command = c at hc hd
        cases c with
        | quitWithoutSave => exact (Option.some.inj hc).symm
        | quitWithin save reply =>
          obtain rfl := Option.some.inj hc
          cases save with
          | false => rfl
          | true => cases hd
        | quit => cases hd
        | _ => cases hc
    have hl : (g.take msg).Level := hok hq (hfirst ▸ hc)
    exact ⟨intents_thaw hl, level_of_hold rfl⟩
  | quits hc _ hq =>
    refine ⟨rfl, level_of_hold (hfree hq ?_)⟩
    generalize msg.command = c at hc
    cases c with
    | quit | quitWithoutSave => rfl
    | quitWithin save reply => cases save <;> rfl
    | _ => cases hc

theorem intents_dispatches (hin : g.replay = [] ∨ msg.command.disposition false = .deferred)
    (hok : g.forQuit = true → msg.command.quits = some false → g.Level)
    (h : Dispatches save dead g msg g') :
    intents g'.queue = intents (g.handled ++ g.deferred ++ msg :: g.replay) := by
  cases h with
  | @deferred h hh _ =>
    simp only [queue, deferred, hh, Option.map_some, Option.getD_some, List.append_assoc, List.singleton_append]
  | covered _ hd =>
    have hnot : msg.command.isIntent = false := by
      rw [Bool.eq_false_iff]
      intro hi
      obtain ⟨ht, hf⟩ := KernelCommand.isIntent_iff.mp hi
      cases hq : g.forQuit with
      | true => rw [hq, ht] at hd; cases hd
      | false => rw [hq, hf] at hd; cases hd
    rw [queue, ← List.singleton_append (l := g.replay)]
    simp only [intents_append, intents_single hnot, List.nil_append]
  | handled hd hp hf =>
    obtain ⟨hq, hl⟩ := intents_performs hd hin hok hp
    rw [intents_finishes hf hl, hq, intents_take hd]

def Deferrable (g : Gate τ) : Prop := ∀ m, m ∈ g.deferred ∨ m ∈ g.replay → m.command.disposition false = .deferred

theorem Deferrable.thaw (hg : g.Deferrable) : g.thaw.Deferrable := by
  rintro m (hm | hm)
  · cases hm
  · exact hg m ((List.mem_append.mp hm).symm)

theorem Deferrable.freeze (hg : g.Deferrable) (dead : Bool) (reply : FreezeReply) :
    (g.freeze dead reply).Deferrable := by
  rintro m (hm | hm)
  · cases hm
  · exact hg m (.inr hm)

theorem Deferrable.dispatches (hg : g.Deferrable) (h : Dispatches save dead g msg g') : g'.Deferrable := by
  cases h with
  | @deferred h hh hd =>
    have he : g.deferred = h.deferred := by simp [Gate.deferred, hh]
    rintro m (hm | hm)
    · rcases List.mem_append.mp hm with hm | hm
      · exact hg m (.inl (he ▸ hm))
      · rw [List.mem_singleton.mp hm]
        exact KernelCommand.disposition_false hd
    · exact hg m (.inr hm)
  | covered => exact hg
  | @handled g₁ _ hd hp hf =>
    have ht : (g.take msg).Deferrable := hg
    have hrun : g₁.Deferrable := by
      cases hp with
      | plain | late => exact ht
      | freezes | saves => exact ht.freeze _ _
      | timesOut | drops | thaws => exact ht.thaw
      | quits => exact ht
    cases hf with
    | waits => exact hrun
    | @answers h reply hh _ =>
      rintro m (hm | hm)
      · exact hrun m (.inl (by simpa [Gate.deferred, hh] using hm))
      · exact hrun m (.inr hm)
    | saves => exact hrun.thaw

theorem Dispatches.arrived (h : Dispatches save dead g msg g') : g'.arrived = g.arrived := by
  cases h with
  | deferred | covered => rfl
  | handled hd hp hf => cases hp <;> cases hf <;> rfl

end order

end Gate

end Dekit
