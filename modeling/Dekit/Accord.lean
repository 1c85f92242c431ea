import Dekit.Speech
import Dekit.Process

namespace Dekit

def TaskCmd.isStart : TaskCmd → Bool
  | .start _ => true
  | _ => false

def starts (cmds : List TaskCmd) : ℕ := cmds.countP TaskCmd.isStart

@[simp] theorem starts_nil : starts [] = 0 := rfl

theorem starts_cons (cmd : TaskCmd) (cs : List TaskCmd) :
    starts (cmd :: cs) = starts cs + if cmd.isStart then 1 else 0 :=
  List.countP_cons

theorem starts_append (cs cs' : List TaskCmd) : starts (cs ++ cs') = starts cs + starts cs' := List.countP_append

namespace Phase

variable {p q : Phase} {cs : List TaskCmd} {cmd : TaskCmd}

theorem after_cons (cmd : TaskCmd) (cs : List TaskCmd) : p.after (cmd :: cs) = (p.next cmd).bind fun q => q.after cs :=
  List.foldlM_cons

theorem next_active (hp : p ≠ down) (h : p.next cmd = some q) : q ≠ down ∧ cmd.isStart = false := by
  cases p <;> cases cmd <;> simp_all [next, TaskCmd.isStart] <;> rw [← h] <;> decide

theorem after_active (hp : p ≠ down) (h : p.after cs = some q) : q ≠ down ∧ starts cs = 0 := by
  induction cs generalizing p with
  | nil =>
    obtain rfl := Option.some.inj h
    exact ⟨hp, rfl⟩
  | cons cmd cs ih =>
    rw [after_cons] at h
    obtain ⟨r, hr, hrest⟩ := Option.bind_eq_some_iff.mp h
    obtain ⟨hr', hcmd⟩ := next_active hp hr
    obtain ⟨hq, hcs⟩ := ih hr' hrest
    refine ⟨hq, ?_⟩
    rw [starts_cons, hcs, hcmd]
    rfl

theorem next_down (h : down.next cmd = some q) :
    (q = down ∧ cmd.isStart = false) ∨ (q = asked ∧ ∃ run, cmd = .start run) := by
  cases cmd <;> simp_all [next, TaskCmd.isStart]

theorem after_down (h : down.after cs = some q) : (q = down ∧ starts cs = 0) ∨
    ∃ pre run post, cs = pre ++ .start run :: post ∧ starts pre = 0 ∧ asked.after post = some q := by
  induction cs with
  | nil => exact .inl ⟨(Option.some.inj h).symm, rfl⟩
  | cons cmd cs ih =>
    rw [after_cons] at h
    obtain ⟨r, hr, hrest⟩ := Option.bind_eq_some_iff.mp h
    rcases next_down hr with ⟨rfl, hcmd⟩ | ⟨rfl, run, rfl⟩
    · rcases ih hrest with ⟨hq, hcs⟩ | ⟨pre, run, post, rfl, hpre, hpost⟩
      · refine .inl ⟨hq, ?_⟩
        rw [starts_cons, hcs, hcmd]
        rfl
      · refine .inr ⟨cmd :: pre, run, post, rfl, ?_, hpost⟩
        rw [starts_cons, hpre, hcmd]
        rfl
    · exact .inr ⟨[], run, cs, rfl, rfl, hrest⟩

theorem after_winding (h : winding.after cs = some q) : q = winding := by
  induction cs with
  | nil => exact (Option.some.inj h).symm
  | cons cmd cs ih =>
    rw [after_cons] at h
    obtain ⟨r, hr, hrest⟩ := Option.bind_eq_some_iff.mp h
    have hw : r = winding := by cases cmd <;> simp_all [next]
    rw [hw] at hrest
    exact ih hrest

theorem after_started (h : asked.after cs = some q) : up.after cs = some (q.report .started) := by
  induction cs with
  | nil =>
    obtain rfl := Option.some.inj h
    rfl
  | cons cmd cs ih =>
    rw [after_cons] at h ⊢
    obtain ⟨r, hr, hrest⟩ := Option.bind_eq_some_iff.mp h
    have hstep : (r = asked ∧ up.next cmd = some up) ∨ (r = winding ∧ up.next cmd = some winding) := by
      cases cmd <;> simp_all [next]
    rcases hstep with ⟨rfl, hu⟩ | ⟨rfl, hu⟩
    · rw [hu]
      exact ih hrest
    · rw [hu]
      obtain rfl := after_winding hrest
      exact hrest

theorem report_active {effect : TaskEffect} (hp : p ≠ down) (he : effect = .started ∨ effect = .ready) :
    p.report effect ≠ down := by
  rcases he with rfl | rfl <;> cases p <;> first | exact hp | decide

theorem report_ready : p.report .ready = p := by cases p <;> rfl

theorem report_stopped (info : ExitInfo) : p.report (.stopped info) = down := by cases p <;> rfl

end Phase

namespace Process

variable {cs cs' : List TaskCmd} {m m' : Main} {es : List TaskEffect} {p q : Phase}

def Main.phase (m : Main) : Phase :=
  if m.process.isNone then .down else if m.instance'.stopSent then .winding else .up

def Main.heard (m : Main) (told : Bool) : Phase :=
  if m.instance'.stopSent then .winding else if told then .up else .asked

def opening (told : Bool) : List TaskEffect := if told then [] else [.started]

/-- How what is under way to a task, its child and what is under way from it fit the phase the kernel has it in. -/
inductive Accord (cs : List TaskCmd) (m : Main) (es : List TaskEffect) (p : Phase) : Prop
  | rest : m.process = none → starts cs = 0 → es = [] → p = .down → Accord cs m es p
  | sent {pre post : List TaskCmd} {run : Option Run} : m.process = none → cs = pre ++ .start run :: post →
      starts pre = 0 → Phase.asked.after post = some p → es = [] → Accord cs m es p
  | alive {told : Bool} {readies : List TaskEffect} : m.process.isSome = true → (m.heard told).after cs = some p →
      es = opening told ++ readies → (∀ e ∈ readies, e = .ready) → Accord cs m es p
  | gone {told : List TaskEffect} {info : ExitInfo} : m.process = none → starts cs = 0 → es = told ++ [.stopped info] →
      (∀ e ∈ told, e = .started ∨ e = .ready) → p ≠ .down → Accord cs m es p

namespace Accord

theorem heard_active (m : Main) (told : Bool) : m.heard told ≠ .down := by
  unfold Main.heard
  split
  · decide
  · split <;> decide

theorem opening_told (told : Bool) {e : TaskEffect} (he : e ∈ opening told) : e = .started := by
  cases told with
  | false => exact List.mem_singleton.mp he
  | true => cases he

theorem more (h : Accord cs m es p) (hq : p.after cs' = some q) : Accord (cs ++ cs') m es q := by
  cases h with
  | rest hp hcs he hd =>
    rw [hd] at hq
    rcases Phase.after_down hq with ⟨rfl, hcs'⟩ | ⟨pre, run, post, rfl, hpre, hpost⟩
    · refine .rest hp ?_ he rfl
      rw [starts_append, hcs, hcs']
    · have hsplit : cs ++ (pre ++ .start run :: post) = cs ++ pre ++ .start run :: post :=
        (List.append_assoc _ _ _).symm
      refine .sent hp hsplit ?_ hpost he
      rw [starts_append, hcs, hpre]
  | sent hp hcs hpre hpost he =>
    rename_i pre post run
    have hsplit : cs ++ cs' = pre ++ .start run :: (post ++ cs') := by
      rw [hcs, List.append_assoc]
      rfl
    exact .sent hp hsplit hpre ((Phase.after_append hpost).trans hq) he
  | alive hp hcs he hr => exact .alive hp ((Phase.after_append hcs).trans hq) he hr
  | gone hp hcs he ht hd =>
    obtain ⟨hq', hcs'⟩ := Phase.after_active hd hq
    refine .gone hp ?_ he ht hq'
    rw [starts_append, hcs, hcs']

theorem told {effect : TaskEffect} (h : Accord cs m (effect :: es) p) : Accord cs m es (p.report effect) := by
  cases h with
  | rest _ _ he => cases he
  | sent _ _ _ _ he => cases he
  | alive hp hcs he hr =>
    rename_i told readies
    cases told with
    | false =>
      obtain ⟨rfl, rfl⟩ := List.cons.inj he
      have hnow : (m.heard true).after cs = some (p.report .started) := by
        cases hs : m.instance'.stopSent with
        | true =>
          simp only [Main.heard, hs, if_true] at hcs ⊢
          obtain rfl := Phase.after_winding hcs
          exact hcs
        | false =>
          simp only [Main.heard, hs, Bool.false_eq_true, if_false, if_true] at hcs ⊢
          exact Phase.after_started hcs
      exact .alive hp hnow rfl hr
    | true =>
      cases readies with
      | nil => cases he
      | cons e readies =>
        obtain ⟨rfl, rfl⟩ := List.cons.inj he
        obtain rfl := hr effect List.mem_cons_self
        rw [Phase.report_ready]
        exact .alive hp hcs rfl fun e he => hr e (List.mem_cons_of_mem _ he)
  | gone hp hcs he ht hd =>
    rename_i told info
    cases told with
    | nil =>
      obtain ⟨rfl, rfl⟩ := List.cons.inj he
      exact .rest hp hcs rfl (Phase.report_stopped info)
    | cons e told =>
      obtain ⟨rfl, rfl⟩ := List.cons.inj he
      exact .gone hp hcs rfl (fun e he => ht e (List.mem_cons_of_mem _ he))
        (Phase.report_active hd (ht effect List.mem_cons_self))

theorem heard_next {told : Bool} {cmd : TaskCmd} {world : World} (h : (m.heard told).next cmd = some q)
    (hs : m'.instance'.stopSent = (m.instance'.stopSent || (Next.cmd cmd world).stops)) : m'.heard told = q := by
  unfold Main.heard at h ⊢
  rw [hs]
  generalize m.instance'.stopSent = stopSent at h ⊢
  cases stopSent <;> cases told <;> cases cmd <;> simp_all [Phase.next, Next.stops]

theorem heard_same {told : Bool} {next : Next} (hn : next.stops = false)
    (hs : m'.instance'.stopSent = (m.instance'.stopSent || next.stops)) : m'.heard told = m.heard told := by
  unfold Main.heard
  rw [hs, hn, Bool.or_false]

theorem ended {told : Bool} {readies readies' : List TaskEffect} {info : ExitInfo} (hp : m'.process = none)
    (hstarts : starts cs = 0) (hd : p ≠ .down) (he : es = opening told ++ readies) (hr : ∀ e ∈ readies, e = .ready)
    (hr' : ∀ e ∈ readies', e = .ready) : Accord cs m' (es ++ (readies' ++ [.stopped info])) p := by
  refine .gone hp hstarts (List.append_assoc _ _ _).symm (fun e hmem => ?_) hd
  rw [he] at hmem
  rcases List.mem_append.mp hmem with hmem | hmem
  · exact (List.mem_append.mp hmem).imp (opening_told told) (hr e)
  · exact .inr (hr' e hmem)

theorem wakes {next : Next} {reports : List Report} (h : Accord cs m es p) (hm : m.Probing)
    (hn : ∀ cmd world, next ≠ .cmd cmd world) (ht : m.turn next = some (m', reports)) :
    Accord cs m' (es ++ effects reports) p := by
  have hstops : next.stops = false := by
    cases next with
    | cmd cmd world => exact absurd rfl (hn cmd world)
    | _ => rfl
  have hidle (hp : m.process = none) : m'.process = none ∧ effects reports = [] := by
    obtain ⟨hp', -, he⟩ := Main.turn_idle hm hp ht fun run world => hn (.start run) world
    exact ⟨hp', he⟩
  cases h with
  | rest hp hcs he hd =>
    obtain ⟨hp', hnil⟩ := hidle hp
    rw [hnil, List.append_nil]
    exact .rest hp' hcs he hd
  | sent hp hcs hpre hpost he =>
    obtain ⟨hp', hnil⟩ := hidle hp
    rw [hnil, List.append_nil]
    exact .sent hp' hcs hpre hpost he
  | gone hp hcs he ht hd =>
    obtain ⟨hp', hnil⟩ := hidle hp
    rw [hnil, List.append_nil]
    exact .gone hp' hcs he ht hd
  | alive hp hcs he hr =>
    obtain ⟨-, readies, hr', ⟨hp', hs, hready⟩ | ⟨hp', info, hready⟩⟩ := Main.turn_child hm hp ht
    · refine .alive hp' ?_ (by rw [he, hready, List.append_assoc]) fun e hmem => ?_
      · rw [heard_same hstops hs]
        exact hcs
      · exact (List.mem_append.mp hmem).elim (hr e) (hr' e)
    · obtain ⟨hd, hstarts⟩ := Phase.after_active (heard_active m _) hcs
      rw [hready]
      exact ended hp' hstarts hd he hr hr'

theorem takes {cmd : TaskCmd} {world : World} {reports : List Report} (h : Accord (cmd :: cs) m es p) (hm : m.Probing)
    (ht : m.turn (.cmd cmd world) = some (m', reports)) : Accord cs m' (es ++ effects reports) p := by
  have hidle (hp : m.process = none) (hcmd : cmd.isStart = false) : m'.process = none ∧ effects reports = [] := by
    have hno : ∀ run world', Next.cmd cmd world ≠ .cmd (.start run) world' := by
      rintro run world' heq
      cases heq
      cases hcmd
    obtain ⟨hp', -, he⟩ := Main.turn_idle hm hp ht hno
    exact ⟨hp', he⟩
  have hplain {l : List TaskCmd} (hl : starts (cmd :: l) = 0) : starts l = 0 ∧ cmd.isStart = false := by
    rw [starts_cons] at hl
    refine ⟨by omega, ?_⟩
    cases hcmd : cmd.isStart with
    | false => rfl
    | true => simp [hcmd] at hl
  cases h with
  | rest hp hcs he hd =>
    obtain ⟨hcs', hcmd⟩ := hplain hcs
    obtain ⟨hp', hnil⟩ := hidle hp hcmd
    rw [hnil, List.append_nil]
    exact .rest hp' hcs' he hd
  | sent hp hcs hpre hpost he =>
    rename_i pre post run
    cases pre with
    | nil =>
      -- This is the start: what was sent after it is what its child will be told.
      obtain ⟨rfl, rfl⟩ := List.cons.inj hcs
      rw [he, List.nil_append]
      obtain ⟨-, ⟨hp', info, hstopped⟩ | ⟨hp', hs, hstarted⟩⟩ := Main.turn_start hm hp ht
      · obtain ⟨hd, hstarts⟩ := Phase.after_active (by decide) hpost
        have hnil : effects reports = [] ++ [.stopped info] := hstopped
        exact .gone hp' hstarts hnil (fun _ hmem => (List.not_mem_nil hmem).elim) hd
      · have hopen : effects reports = opening false ++ [] := hstarted
        have hasked : (m'.heard false).after cs = some p := by
          unfold Main.heard
          rw [hs]
          exact hpost
        exact .alive hp' hasked hopen fun _ hmem => (List.not_mem_nil hmem).elim
    | cons c pre =>
      obtain ⟨rfl, rfl⟩ := List.cons.inj hcs
      obtain ⟨hpre', hcmd⟩ := hplain hpre
      obtain ⟨hp', hnil⟩ := hidle hp hcmd
      rw [hnil, List.append_nil]
      exact .sent hp' rfl hpre' hpost he
  | gone hp hcs he ht hd =>
    obtain ⟨hcs', hcmd⟩ := hplain hcs
    obtain ⟨hp', hnil⟩ := hidle hp hcmd
    rw [hnil, List.append_nil]
    exact .gone hp' hcs' he ht hd
  | alive hp hcs he hr =>
    rename_i told readies
    obtain ⟨-, readies', hr', ⟨hp', hs, hready⟩ | ⟨hp', info, hready⟩⟩ := Main.turn_child hm hp ht
    · rw [Phase.after_cons] at hcs
      obtain ⟨r, hnext, hrest⟩ := Option.bind_eq_some_iff.mp hcs
      refine .alive hp' ?_ (by rw [he, hready, List.append_assoc]) fun e hmem => ?_
      · rw [heard_next hnext hs]
        exact hrest
      · exact (List.mem_append.mp hmem).elim (hr e) (hr' e)
    · obtain ⟨hd, hstarts⟩ := Phase.after_active (heard_active m _) hcs
      rw [hready]
      exact ended hp' (hplain hstarts).1 hd he hr hr'

end Accord

theorem single {cs : List TaskCmd} {m : Main} {es : List TaskEffect} {q : Phase} (h : Accord cs m es q) :
    starts cs + (if m.process.isSome then 1 else 0) + ends es = if q = .down then 0 else 1 := by
  cases h with
  | rest hp hcs he hd =>
    rw [hp, hcs, he, hd]
    rfl
  | sent hp hcs hpre hpost he =>
    obtain ⟨hd, hstarts⟩ := Phase.after_active (by decide) hpost
    rw [hp, hcs, he, starts_append, starts_cons, hpre, hstarts, if_neg hd]
    rfl
  | alive hp hcs he hr =>
    rename_i told readies
    obtain ⟨hd, hstarts⟩ := Phase.after_active (Accord.heard_active m told) hcs
    have hends : ends es = 0 := by
      refine ends_zero fun e hmem => ?_
      rw [he] at hmem
      exact (List.mem_append.mp hmem).imp (Accord.opening_told told) (hr e)
    rw [hp, hstarts, hends, if_neg hd]
    rfl
  | gone hp hcs he ht hd =>
    rename_i told info
    have hends : ends es = 1 := by
      rw [he, ends_append, ends_zero ht]
      rfl
    rw [hp, hcs, hends, if_neg hd]
    rfl

theorem vacant {cs : List TaskCmd} {m : Main} {es : List TaskEffect} {q : Phase} {run : Option Run}
    (h : Accord (.start run :: cs) m es q) : m.process = none := by
  have hone := single h
  rw [starts_cons] at hone
  cases hp : m.process with
  | none => rfl
  | some pid =>
    rw [hp] at hone
    simp only [TaskCmd.isStart, if_true, Option.isSome_some] at hone
    split at hone <;> omega

theorem heeded {cs : List TaskCmd} {m : Main} {es : List TaskEffect} {q : Phase} (h : Accord cs m es q) (he : es ≠ []) :
    q ≠ .down := by
  cases h with
  | rest _ _ hnil _ => exact absurd hnil he
  | sent _ _ _ _ hnil => exact absurd hnil he
  | alive _ hcs _ _ => exact (Phase.after_active (Accord.heard_active m _) hcs).1
  | gone _ _ _ _ hd => exact hd

theorem agreed {m : Main} {q : Phase} (h : Accord [] m [] q) : m.phase = q := by
  unfold Main.phase
  cases h with
  | rest hp _ _ hd => rw [hp, hd, Option.isNone_none, if_pos rfl]
  | sent _ hcs _ _ _ => exact absurd hcs.symm (by simp)
  | alive hp hcs he hr =>
    rename_i told readies
    have hq := Option.some.inj hcs
    have hsome : m.process.isNone = false := by
      rw [Option.isNone_eq_false_iff]
      exact hp
    rw [hsome, if_neg Bool.false_ne_true, ← hq]
    cases told with
    | true => rfl
    | false => cases he
  | gone _ _ he _ _ => exact absurd he.symm (by simp)

end Process

end Dekit
