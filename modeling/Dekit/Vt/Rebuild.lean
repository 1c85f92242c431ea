import Mathlib.Data.List.Induction
import Dekit.Vt.Params

namespace Dekit

namespace Vt

theorem onLast_append {α : Type} (f : α → α) (l : List α) (v : α) : onLast f (l ++ [v]) = l ++ [f v] := by
  induction l with
  | nil => rfl
  | cons x l ih =>
    cases l with
    | nil => rfl
    | cons y l => exact congrArg (x :: ·) ih

namespace Params

variable {p q : Params} {us vs : List Param} {b : UInt8}

def scan (p : Params) (b : UInt8) : Params :=
  if 0x30 ≤ b ∧ b ≤ 0x39 then p.pushDigit (b.toNat - 0x30)
  else if b = 0x3B then p.nextParam false
  else if b = 0x3A then p.nextParam true
  else if 0x3C ≤ b ∧ b ≤ 0x3F then p.setPrefix b
  else p.setInter b

/-- What the bytes of a sequence so far can have made of its parameters. -/
structure Fit (p : Params) : Prop where
  leader : p.prefixByte = 0 ∨ 0x3C ≤ p.prefixByte ∧ p.prefixByte ≤ 0x3F
  between : p.inter = 0 ∨ p.inter = 0xFF ∨ 0x20 ≤ p.inter ∧ p.inter ≤ 0x2F
  unfinished : p.final = 0
  small : ∀ v ∈ p.values, v.value ≤ u32Max ∧ (v.given = false → v.value = 0)
  count : p.values.length ≤ maxParams
  head : ∀ v vs, p.values = v :: vs → v.sub = false ∧ (vs = [] → v.given = true)
  marked : p.invalid = true → p.values ≠ [] ∨ p.prefixByte ≠ 0

theorem fit_of_small {vs : List Param} {v : Param} (hsmall : ∀ v ∈ vs, v.value ≤ u32Max ∧ (v.given = false → v.value = 0))
    (hcount : vs.length ≤ maxParams) (hhead : vs.head? = some v) (hv : v.sub = false ∧ v.given = true) :
    ({ reset with values := vs } : Params).Fit where
  leader := .inl rfl
  between := .inl rfl
  unfinished := rfl
  small := hsmall
  count := hcount
  head w ws h := by
    simp only at h
    rw [h] at hhead
    obtain rfl := Option.some.inj hhead
    exact ⟨hv.1, fun _ => hv.2⟩
  marked h := by cases h

theorem fit_reset : reset.Fit where
  leader := .inl rfl
  between := .inl rfl
  unfinished := rfl
  small v h := by cases h
  count := Nat.zero_le _
  head v vs h := by cases h
  marked h := by cases h

theorem digit_range {d : ℕ} (hd : d < 10) : 0x30 ≤ UInt8.ofNat (0x30 + d) ∧ UInt8.ofNat (0x30 + d) ≤ 0x39 ∧
    (UInt8.ofNat (0x30 + d)).toNat - 0x30 = d := by
  have hn : (UInt8.ofNat (0x30 + d)).toNat = 0x30 + d := by
    rw [UInt8.toNat_ofNat']
    omega
  simp only [UInt8.le_iff_toNat_le, hn]
  simp
  omega

theorem scan_digit {d : ℕ} (hd : d < 10) (p : Params) : p.scan (UInt8.ofNat (0x30 + d)) = p.pushDigit d := by
  obtain ⟨hlow, hhigh, hval⟩ := digit_range hd
  rw [scan, if_pos ⟨hlow, hhigh⟩, hval]

theorem pushDigit_last {v : Param} (h : p.started = us ++ [v]) (d : ℕ) : p.pushDigit d =
    { p with values := us ++ [⟨saturatingAdd (saturatingMul v.value 10) d, true, v.sub⟩] } := by
  unfold pushDigit
  rw [h, onLast_append]

theorem started_of_ne (h : p.values ≠ []) : p.started = p.values := by
  unfold started
  rw [if_neg (by simpa using h)]

theorem scan_decimal {sub g : Bool} {n : ℕ} (hn : n ≤ u32Max) (h : p.started = us ++ [⟨0, g, sub⟩]) :
    (decimal n).foldl scan p = { p with values := us ++ [⟨n, true, sub⟩] } := by
  induction n using Nat.strong_induction_on with
  | _ n ih =>
    rw [decimal]
    split
    · rename_i hlt
      have hone : saturatingAdd (saturatingMul 0 10) n = n := by
        unfold saturatingAdd saturatingMul
        omega
      rw [List.foldl_cons, List.foldl_nil, scan_digit hlt, pushDigit_last h, hone]
    · rename_i hge
      have hval : saturatingAdd (saturatingMul (n / 10) 10) (n % 10) = n := by
        unfold saturatingAdd saturatingMul
        omega
      rw [List.foldl_append, ih (n / 10) (by omega) (by omega), List.foldl_cons, List.foldl_nil,
        scan_digit (Nat.mod_lt _ (by decide))]
      have hlast : ({ p with values := us ++ [⟨n / 10, true, sub⟩] } : Params).started = us ++ [⟨n / 10, true, sub⟩] :=
        started_of_ne (by simp)
      rw [pushDigit_last hlast, hval]

theorem scan_writeValue {v : Param} (hv : v.value ≤ u32Max ∧ (v.given = false → v.value = 0))
    (h : p.started = us ++ [⟨0, false, v.sub⟩]) (hp : v.given = false → p.values = us ++ [⟨0, false, v.sub⟩]) :
    (writeValue v).foldl scan p = { p with values := us ++ [v] } := by
  obtain ⟨value, given, sub⟩ := v
  unfold writeValue
  cases given with
  | true => exact scan_decimal hv.1 h
  | false =>
    obtain rfl : value = 0 := hv.2 rfl
    have hvalues := hp rfl
    simp only [Bool.false_eq_true, if_false, List.foldl_nil] at hvalues ⊢
    rw [← hvalues]

theorem scan_writeNext {v : Param} (hv : v.value ≤ u32Max ∧ (v.given = false → v.value = 0))
    (hcount : p.started.length < maxParams) :
    (writeNext v).foldl scan p = { p with values := p.started ++ [v] } := by
  have hsep : p.scan (if v.sub then 0x3A else 0x3B) = { p with values := p.started ++ [⟨0, false, v.sub⟩] } := by
    cases v.sub with
    | true => exact if_pos hcount
    | false => exact if_pos hcount
  unfold writeNext
  rw [List.foldl_cons, hsep]
  exact scan_writeValue hv (started_of_ne (by simp)) fun _ => rfl

theorem scan_writeNexts (hv : ∀ v ∈ vs, v.value ≤ u32Max ∧ (v.given = false → v.value = 0))
    (hcount : p.started.length + vs.length ≤ maxParams) (hne : vs ≠ []) :
    (vs.flatMap writeNext).foldl scan p = { p with values := p.started ++ vs } := by
  induction vs generalizing p with
  | nil => exact absurd rfl hne
  | cons v vs ih =>
    rw [List.length_cons] at hcount
    rw [List.flatMap_cons, List.foldl_append, scan_writeNext (hv v List.mem_cons_self) (by omega)]
    by_cases hvs : vs = []
    · rw [hvs]
      rfl
    · have hstarted : ({ p with values := p.started ++ [v] } : Params).started = p.started ++ [v] :=
        started_of_ne (by simp)
      rw [ih (fun w hw => hv w (List.mem_cons_of_mem _ hw)) (by rw [hstarted, List.length_append]; simp; omega) hvs,
        hstarted, List.append_assoc]
      rfl

theorem scan_writeValues (h : p.Fit) (hq : q.values = []) :
    (writeValues p.values).foldl scan q = { q with values := p.values } := by
  have hstarted : q.started = [⟨0, false, false⟩] := by
    unfold started
    rw [hq]
    rfl
  cases hvs : p.values with
  | nil =>
    obtain ⟨leader, inter, final, values, invalid⟩ := q
    obtain rfl : values = [] := hq
    rfl
  | cons v vs =>
    obtain ⟨hsub, hgiven⟩ := h.head v vs hvs
    have hsmall := h.small
    have hcount := h.count
    rw [hvs] at hsmall hcount
    have hv := hsmall v List.mem_cons_self
    rw [writeValues, List.foldl_append]
    by_cases hlast : vs = []
    · subst hlast
      have hg := hgiven rfl
      have hwrite : (writeValue v).foldl scan q = { q with values := [] ++ [v] } :=
        scan_writeValue hv (by rw [hstarted, hsub]; rfl) fun hno => by rw [hno] at hg; cases hg
      rw [hwrite]
      rfl
    · -- A first parameter that is not given is there once the next one is.
      have hfirst : ∃ q' : Params, (writeValue v).foldl scan q = q' ∧ q'.started = [v] ∧
          ∀ ws, ({ q' with values := ws } : Params) = { q with values := ws } := by
        cases hg : v.given with
        | true =>
          have hwrite : (writeValue v).foldl scan q = { q with values := [] ++ [v] } :=
            scan_writeValue hv (by rw [hstarted, hsub]; rfl) fun hno => by rw [hno] at hg; cases hg
          exact ⟨_, hwrite, started_of_ne (by simp), fun ws => rfl⟩
        | false =>
          refine ⟨q, by rw [writeValue, hg]; rfl, ?_, fun ws => rfl⟩
          obtain ⟨value, given, sub⟩ := v
          obtain rfl : value = 0 := hv.2 hg
          obtain rfl : given = false := hg
          obtain rfl : sub = false := hsub
          exact hstarted
      obtain ⟨q', hq', hstarted', hsame⟩ := hfirst
      rw [hq', scan_writeNexts (fun w hw => hsmall w (List.mem_cons_of_mem _ hw))
        (by rw [hstarted']; rw [List.length_cons] at hcount; simp only [List.length_singleton]; omega) hlast,
          hstarted', hsame]
      rfl

theorem prefix_range (h : 0x3C ≤ b ∧ b ≤ 0x3F) : ¬ (0x30 ≤ b ∧ b ≤ 0x39) ∧ b ≠ 0x3B ∧ b ≠ 0x3A := by
  grind

theorem inter_range (h : 0x20 ≤ b ∧ b ≤ 0x2F) :
    ¬ (0x30 ≤ b ∧ b ≤ 0x39) ∧ b ≠ 0x3B ∧ b ≠ 0x3A ∧ ¬ (0x3C ≤ b ∧ b ≤ 0x3F) := by
  grind

theorem scan_leader (h : 0x3C ≤ b ∧ b ≤ 0x3F) (p : Params) : p.scan b = p.setPrefix b := by
  obtain ⟨h₁, h₂, h₃⟩ := prefix_range h
  rw [scan, if_neg h₁, if_neg h₂, if_neg h₃, if_pos h]

theorem scan_inter (h : 0x20 ≤ b ∧ b ≤ 0x2F) (p : Params) : p.scan b = p.setInter b := by
  obtain ⟨h₁, h₂, h₃, h₄⟩ := inter_range h
  rw [scan, if_neg h₁, if_neg h₂, if_neg h₃, if_neg h₄]

theorem scan_writeUnfinished (h : p.Fit) : p.writeUnfinished.foldl scan reset = p := by
  unfold writeUnfinished
  rw [List.foldl_append, List.foldl_append, List.foldl_append]
  have hleader : (if p.prefixByte ≠ 0 then [p.prefixByte] else []).foldl scan reset =
      { reset with prefixByte := p.prefixByte } := by
    split
    · rename_i hne
      rw [List.foldl_cons, List.foldl_nil, scan_leader (h.leader.resolve_left hne)]
      rfl
    · rename_i hno
      rw [not_not.mp hno]
      rfl
  have hinvalid : (if p.invalid then [0x3F] else []).foldl scan
      ({ reset with prefixByte := p.prefixByte, values := p.values } : Params) =
      { reset with prefixByte := p.prefixByte, values := p.values, invalid := p.invalid } := by
    cases hp : p.invalid with
    | false => rfl
    | true =>
      have hmarked : ¬ (p.values.isEmpty && decide (p.prefixByte = 0)) = true := by
        rcases h.marked hp with hne | hne
        · simp [hne]
        · simp [hne]
      simp only [if_true, List.foldl_cons, List.foldl_nil]
      rw [scan_leader (by decide), setPrefix, if_neg hmarked]
  have hinter : (if p.inter = 0 then [] else if p.inter = 0xFF then [0x20, 0x20] else [p.inter]).foldl scan
      ({ reset with prefixByte := p.prefixByte, values := p.values, invalid := p.invalid } : Params) =
      { reset with prefixByte := p.prefixByte, values := p.values, invalid := p.invalid, inter := p.inter } := by
    split
    · rename_i hno
      rw [hno]
      rfl
    · rename_i hne
      split
      · rename_i hmore
        rw [hmore]
        rfl
      · rename_i hone
        have hrange := (h.between.resolve_left hne).resolve_left hone
        rw [List.foldl_cons, List.foldl_nil, scan_inter hrange]
        rfl
  rw [hleader, scan_writeValues h rfl, hinvalid, hinter]
  obtain ⟨leader, inter, final, values, invalid⟩ := p
  obtain rfl : final = 0 := h.unfinished
  rfl

/-- The parameters that are there when a digit or a separator comes are fit but for the one to be given. -/
theorem Fit.started_small (h : p.Fit) : ∀ v ∈ p.started, v.value ≤ u32Max ∧ (v.given = false → v.value = 0) := by
  unfold started
  split
  · intro v hv
    obtain rfl := List.mem_singleton.mp hv
    exact ⟨Nat.zero_le _, fun _ => rfl⟩
  · exact h.small

theorem started_ne (p : Params) : p.started ≠ [] := by
  unfold started
  split
  · exact List.cons_ne_nil _ _
  · rename_i hne
    simpa using hne

theorem Fit.started_count (h : p.Fit) : p.started.length ≤ maxParams := by
  unfold started
  split
  · decide
  · exact h.count

theorem Fit.started_head (h : p.Fit) (v : Param) (vs : List Param) (hvs : p.started = v :: vs) : v.sub = false := by
  unfold started at hvs
  split at hvs
  · rw [← (List.cons.inj hvs).1]
  · exact (h.head v vs hvs).1

theorem Fit.pushDigit (h : p.Fit) (d : ℕ) : (p.pushDigit d).Fit := by
  obtain ⟨us, v, hlast⟩ := List.eq_nil_or_concat p.started |>.resolve_left (started_ne p)
  rw [List.concat_eq_append] at hlast
  rw [pushDigit_last hlast]
  have hsmall := h.started_small
  have hcount := h.started_count
  have hhead := h.started_head
  rw [hlast] at hsmall hcount hhead
  refine ⟨h.leader, h.between, h.unfinished, fun w hw => ?_, by simpa using hcount, fun w ws hws => ?_,
    fun _ => .inl (by simp)⟩
  · rcases List.mem_append.mp hw with hw | hw
    · exact hsmall w (List.mem_append_left _ hw)
    · obtain rfl := List.mem_singleton.mp hw
      exact ⟨Nat.min_le_right _ _, fun hno => by cases hno⟩
  · cases us with
    | nil =>
      obtain ⟨rfl, rfl⟩ := List.cons.inj hws
      exact ⟨hhead v [] rfl, fun _ => rfl⟩
    | cons u us =>
      obtain ⟨rfl, rfl⟩ := List.cons.inj hws
      exact ⟨hhead u _ rfl, fun hno => by simp at hno⟩

theorem Fit.nextParam (h : p.Fit) (sub : Bool) : (p.nextParam sub).Fit := by
  have hne := started_ne p
  unfold Params.nextParam
  split
  · rename_i hlt
    refine ⟨h.leader, h.between, h.unfinished, fun w hw => ?_, by simp; omega, fun w ws hws => ?_, fun _ => .inl (by simp)⟩
    · rcases List.mem_append.mp hw with hw | hw
      · exact h.started_small w hw
      · obtain rfl := List.mem_singleton.mp hw
        exact ⟨Nat.zero_le _, fun _ => rfl⟩
    · cases hs : p.started with
      | nil => exact absurd hs hne
      | cons u us =>
        rw [hs] at hws
        obtain ⟨rfl, rfl⟩ := List.cons.inj hws
        exact ⟨h.started_head u us hs, fun hno => by simp at hno⟩
  · rename_i hge
    refine ⟨h.leader, h.between, h.unfinished, h.started_small, h.started_count, fun w ws hws => ?_, fun _ => .inl hne⟩
    refine ⟨h.started_head w ws hws, fun hno => ?_⟩
    rw [show p.started = w :: ws from hws, hno] at hge
    exact absurd (show 1 < maxParams by decide) hge

theorem Fit.setPrefix (h : p.Fit) (hb : 0x3C ≤ b ∧ b ≤ 0x3F) : (p.setPrefix b).Fit := by
  unfold Params.setPrefix
  split
  · rename_i hnone
    refine ⟨.inr hb, h.between, h.unfinished, h.small, h.count, h.head, fun _ => .inr ?_⟩
    rintro rfl
    revert hb
    decide
  · rename_i hsome
    refine ⟨h.leader, h.between, h.unfinished, h.small, h.count, h.head, fun _ => ?_⟩
    simpa [or_iff_not_imp_left] using hsome

theorem Fit.setInter (h : p.Fit) (hb : 0x20 ≤ b ∧ b ≤ 0x2F) : (p.setInter b).Fit := by
  refine ⟨h.leader, ?_, h.unfinished, h.small, h.count, h.head, h.marked⟩
  unfold Params.setInter
  split
  · exact .inr (.inr hb)
  · exact .inr (.inl rfl)

theorem Fit.scan (h : p.Fit) (hb : 0x20 ≤ b ∧ b ≤ 0x3F) : (p.scan b).Fit := by
  unfold Params.scan
  split
  · exact h.pushDigit _
  split
  · exact h.nextParam _
  split
  · exact h.nextParam _
  split
  · rename_i hleader
    exact h.setPrefix hleader
  · refine h.setInter ⟨hb.1, ?_⟩
    grind

theorem decimal_range (n : ℕ) : ∀ b ∈ decimal n, 0x20 ≤ b ∧ b ≤ 0x3F := by
  have hdigit {d : ℕ} (hd : d < 10) : 0x20 ≤ UInt8.ofNat (0x30 + d) ∧ UInt8.ofNat (0x30 + d) ≤ 0x3F := by
    obtain ⟨hlow, hhigh, -⟩ := digit_range hd
    grind
  induction n using Nat.strong_induction_on with
  | _ n ih =>
    rw [decimal]
    split
    · rename_i hlt
      intro b hb
      obtain rfl := List.mem_singleton.mp hb
      exact hdigit hlt
    · intro b hb
      rcases List.mem_append.mp hb with hb | hb
      · exact ih (n / 10) (by omega) b hb
      · obtain rfl := List.mem_singleton.mp hb
        exact hdigit (Nat.mod_lt _ (by decide))

theorem writeValue_range (v : Param) : ∀ b ∈ writeValue v, 0x20 ≤ b ∧ b ≤ 0x3F := by
  unfold writeValue
  split
  · exact decimal_range _
  · intro b hb
    cases hb

theorem writeValues_range (vs : List Param) : ∀ b ∈ writeValues vs, 0x20 ≤ b ∧ b ≤ 0x3F := by
  cases vs with
  | nil => intro b hb; cases hb
  | cons v vs =>
    intro b hb
    rcases List.mem_append.mp hb with hb | hb
    · exact writeValue_range v b hb
    · obtain ⟨w, -, hw⟩ := List.mem_flatMap.mp hb
      rcases List.mem_cons.mp hw with rfl | hw
      · cases w.sub <;> decide
      · exact writeValue_range w b hw

theorem writeUnfinished_range (h : p.Fit) : ∀ b ∈ p.writeUnfinished, 0x20 ≤ b ∧ b ≤ 0x3F := by
  unfold writeUnfinished
  intro b hb
  rcases List.mem_append.mp hb with hb | hb
  · rcases List.mem_append.mp hb with hb | hb
    · rcases List.mem_append.mp hb with hb | hb
      · split at hb
        · rename_i hne
          obtain rfl := List.mem_singleton.mp hb
          have hrange := h.leader.resolve_left hne
          grind
        · cases hb
      · exact writeValues_range _ b hb
    · split at hb
      · obtain rfl := List.mem_singleton.mp hb
        decide
      · cases hb
  · split at hb
    · cases hb
    · rename_i hne
      split at hb
      · have hspace : b = 0x20 := by simpa using hb
        rw [hspace]
        decide
      · rename_i hone
        obtain rfl := List.mem_singleton.mp hb
        have hrange := (h.between.resolve_left hne).resolve_left hone
        grind

end Params

end Vt

end Dekit
