import Dekit.Term.Csi
import Dekit.Vt.Runs
import Dekit.Vt.Sgr
import Mathlib.Tactic.IntervalCases

/-! What a screen reads of the transitions between styles. -/

namespace Dekit

namespace Term

open Vt

namespace Screen

variable {p p' : Params} {i i' : ℕ} {s : Style}

theorem getElem?_of_drop (h : p.values.drop i = p'.values.drop i') (k : ℕ) : p.values[i + k]? = p'.values[i' + k]? := by
  rw [← List.getElem?_drop, h, List.getElem?_drop]

theorem sgrColor_of_drop (h : p.values.drop i = p'.values.drop i') : (sgrColor p i).1 = (sgrColor p' i').1 ∧
    ∃ k, 0 < k ∧ (sgrColor p i).2 = i + k ∧ (sgrColor p' i').2 = i' + k := by
  have hopt (k : ℕ) : p.getOpt (i + k) = p'.getOpt (i' + k) := by
    unfold Params.getOpt
    rw [getElem?_of_drop h]
  have hsub (k : ℕ) : p.isSub (i + k) = p'.isSub (i' + k) := by
    unfold Params.isSub
    rw [getElem?_of_drop h]
  have hget (k d : ℕ) : p.get (i + k) d = p'.get (i' + k) d := by
    unfold Params.get
    rw [hopt]
  unfold sgrColor
  rw [hget 1 2, hsub 2, hopt 2]
  split
  · by_cases hspace : (p'.isSub (i' + 2) && (p'.getOpt (i' + 2)).isNone) = true
    · simp only [hspace, if_true, Nat.add_assoc, hget]
      exact ⟨trivial, 1 + 5, by omega, rfl, rfl⟩
    · simp only [hspace, Bool.false_eq_true, if_false, hget]
      exact ⟨trivial, 5, by omega, rfl, rfl⟩
  · rw [hget 2 0]
    exact ⟨rfl, 3, by omega, rfl, rfl⟩
  · exact ⟨rfl, 2, by omega, rfl, rfl⟩

theorem sgrStep_next (p : Params) (i : ℕ) (s : Style) : (sgrStep p i s).2 =
    if p.get i 0 = 38 ∨ p.get i 0 = 48 ∨ p.get i 0 = 58 then (sgrColor p i).2 else i + 1 := by
  unfold sgrStep
  simp only [apply_ite Prod.snd]
  by_cases h38 : p.get i 0 = 38
  · simp [h38]
  by_cases h48 : p.get i 0 = 48
  · simp [h48]
  by_cases h58 : p.get i 0 = 58
  · simp [h58]
  simp only [h38, h48, h58, if_false, ite_self, or_self]

theorem sgrStep_of_drop (h : p.values.drop i = p'.values.drop i') (s : Style) :
    (sgrStep p i s).1 = (sgrStep p' i' s).1 ∧
      ∃ k, 0 < k ∧ (sgrStep p i s).2 = i + k ∧ (sgrStep p' i' s).2 = i' + k := by
  obtain ⟨hcolor, hnext⟩ := sgrColor_of_drop h
  have hsub : p.isSub (i + 1) = p'.isSub (i' + 1) := by
    unfold Params.isSub
    rw [getElem?_of_drop h]
  have hget (k d : ℕ) : p.get (i + k) d = p'.get (i' + k) d := by
    unfold Params.get Params.getOpt
    rw [getElem?_of_drop h]
  have hcode : p.get i 0 = p'.get i' 0 := hget 0 0
  refine ⟨?_, ?_⟩
  · unfold sgrStep
    rw [hcode, hget 1 1, hsub, hcolor]
    simp only [apply_ite Prod.fst]
  · rw [sgrStep_next, sgrStep_next, hcode]
    split_ifs
    · exact hnext
    · exact ⟨1, Nat.one_pos, rfl, rfl⟩

def sgrOf (vs : List Param) (s : Style) : Style := sgrFrom { Params.reset with values := vs } vs.length 0 s

theorem sgrFrom_end {fuel : ℕ} (h : p.values.length ≤ i) : sgrFrom p fuel i s = s := by
  cases fuel with
  | zero => rfl
  | succ fuel => exact if_pos h

theorem sgrFrom_of_drop {fuel fuel' : ℕ} (h : p.values.drop i = p'.values.drop i')
    (hfuel : p.values.length ≤ i + fuel) (hfuel' : p'.values.length ≤ i' + fuel') :
    sgrFrom p fuel i s = sgrFrom p' fuel' i' s := by
  induction fuel generalizing fuel' i i' s with
  | zero =>
    have hend : p'.values.length ≤ i' := List.drop_eq_nil_iff.mp (h ▸ List.drop_eq_nil_iff.mpr hfuel)
    rw [sgrFrom_end (show p.values.length ≤ i by omega), sgrFrom_end hend]
  | succ fuel ih =>
    by_cases hend : p.values.length ≤ i
    · have hend' : p'.values.length ≤ i' := List.drop_eq_nil_iff.mp (h ▸ List.drop_eq_nil_iff.mpr hend)
      rw [sgrFrom_end hend, sgrFrom_end hend']
    · have hend' : ¬ p'.values.length ≤ i' := fun h' =>
        hend (List.drop_eq_nil_iff.mp (h ▸ List.drop_eq_nil_iff.mpr h'))
      obtain ⟨fuel', rfl⟩ := Nat.exists_eq_add_one.mpr (show 0 < fuel' by omega)
      have hsub : p.isSub i = p'.isSub i' := by
        unfold Params.isSub
        have := getElem?_of_drop h 0
        rw [Nat.add_zero, Nat.add_zero] at this
        rw [this]
      have hrest (k : ℕ) : p.values.drop (i + k) = p'.values.drop (i' + k) := by
        rw [← List.drop_drop, h, List.drop_drop]
      unfold sgrFrom
      rw [if_neg hend, if_neg hend', hsub]
      cases hattached : p'.isSub i' with
      | true => exact ih (hrest 1) (by omega) (by omega)
      | false =>
        obtain ⟨hstyle, k, hk, hnext, hnext'⟩ := sgrStep_of_drop h s
        rw [hstyle, hnext, hnext']
        exact ih (hrest k) (by omega) (by omega)

theorem sgrOf_sub {v : Param} {vs : List Param} (h : v.sub = true) : sgrOf (v :: vs) s = sgrOf vs s := by
  have hattached : ({ Params.reset with values := v :: vs } : Params).isSub 0 = true := h
  unfold sgrOf
  rw [List.length_cons, sgrFrom, if_neg (by simp), hattached]
  exact sgrFrom_of_drop rfl (by grind) (by grind)

theorem sgrOf_step {v : Param} {vs : List Param} {n : ℕ} {s' : Style} (h : v.sub = false)
    (hstep : sgrStep { Params.reset with values := v :: vs } 0 s = (s', n + 1)) :
    sgrOf (v :: vs) s = sgrOf (vs.drop n) s' := by
  have hattached : ({ Params.reset with values := v :: vs } : Params).isSub 0 = false := h
  unfold sgrOf
  rw [List.length_cons, sgrFrom, if_neg (by simp), hattached, if_neg Bool.false_ne_true, hstep]
  exact sgrFrom_of_drop (by simp) (by grind) (by simp)

end Screen

def plain (n : ℕ) : Param := ⟨n, true, false⟩

def attached (n : ℕ) : Param := ⟨n, true, true⟩

/-- The parameters of one part of a transition. -/
structure Part (g : List Param) : Prop where
  small : ∀ v ∈ g, v.value ≤ u32Max ∧ (v.given = false → v.value = 0)
  first : ∃ n, g.head? = some (plain n)

/-- Parts of so many parameters at most that make one style of another wherever they stand. -/
def Leads (n : ℕ) (parts : List (List UInt8)) (s s' : Style) : Prop :=
  ∃ groups : List (List Param), parts = groups.map Params.writeValues ∧ groups.flatten.length ≤ n ∧
    (∀ g ∈ groups, Part g) ∧
    ∀ post : List Param, (∀ v ∈ post.head?, v.sub = false) →
      Screen.sgrOf (groups.flatten ++ post) s = Screen.sgrOf post s'

variable {n m : ℕ} {parts parts' : List (List UInt8)} {s s' s'' : Style}

theorem Part.head_flatten {groups : List (List Param)} (hparts : ∀ g ∈ groups, Part g) {post : List Param}
    (hpost : ∀ v ∈ post.head?, v.sub = false) : ∀ v ∈ (groups.flatten ++ post).head?, v.sub = false := by
  cases groups with
  | nil => exact hpost
  | cons g groups =>
    obtain ⟨n, hfirst⟩ := (hparts g List.mem_cons_self).first
    obtain ⟨g, rfl⟩ := List.head?_eq_some_iff.mp hfirst
    intro v hv
    obtain rfl := Option.some.inj hv
    rfl

namespace Leads

theorem nil : Leads 0 [] s s := ⟨[], rfl, le_rfl, by simp, fun _ _ => rfl⟩

theorem append (h : Leads n parts s s') (h' : Leads m parts' s' s'') : Leads (n + m) (parts ++ parts') s s'' := by
  obtain ⟨groups, rfl, hlen, hparts, hmakes⟩ := h
  obtain ⟨groups', rfl, hlen', hparts', hmakes'⟩ := h'
  refine ⟨groups ++ groups', by simp, ?_, ?_, ?_⟩
  · rw [List.flatten_append, List.length_append]
    omega
  · exact fun g hg => (List.mem_append.mp hg).elim (hparts g) (hparts' g)
  · intro post hpost
    rw [List.flatten_append, List.append_assoc, hmakes _ (Part.head_flatten hparts' hpost), hmakes' post hpost]

theorem mono (h : Leads n parts s s') (hn : n ≤ m) : Leads m parts s s' := by
  obtain ⟨groups, heq, hlen, hrest⟩ := h
  exact ⟨groups, heq, Nat.le_trans hlen hn, hrest⟩

theorem one {g : List Param} (hpart : Part g) (hlen : g.length ≤ n)
    (hmakes : ∀ post : List Param, (∀ v ∈ post.head?, v.sub = false) →
      Screen.sgrOf (g ++ post) s = Screen.sgrOf post s') : Leads n [Params.writeValues g] s s' :=
  ⟨[g], rfl, by simpa using hlen, by simpa using hpart, by simpa using hmakes⟩

theorem opt {c : Prop} [Decidable c] (h : c → Leads n parts s s') (h' : ¬ c → s = s') :
    Leads n (if c then parts else []) s s' := by
  split
  · rename_i hc
    exact h hc
  · rename_i hc
    obtain rfl := h' hc
    exact ⟨[], rfl, Nat.zero_le _, by simp, fun _ _ => rfl⟩

theorem code {k : ℕ} (hk : k ≤ 255) (hmakes : ∀ post : List Param, (∀ v ∈ post.head?, v.sub = false) →
      Screen.sgrStep { Params.reset with values := plain k :: post } 0 s = (s', 1)) : Leads 1 [decimal k] s s' := by
  have hwrite : decimal k = Params.writeValues [plain k] := (List.append_nil _).symm
  rw [hwrite]
  refine one ⟨fun v hv => ?_, k, rfl⟩ le_rfl fun post hpost => ?_
  · obtain rfl := List.mem_singleton.mp hv
    exact ⟨Nat.le_trans hk (by decide), fun h => Bool.noConfusion h⟩
  · exact Screen.sgrOf_step rfl (hmakes post hpost)

theorem flag (set : Bool → Style) (on off : ℕ) {b : Bool} (b' : Bool) (hon : on ≤ 255) (hoff : off ≤ 255)
    (hs : set b = s)
    (hset : ∀ post, Screen.sgrStep { Params.reset with values := plain on :: post } 0 s = (set true, 1))
    (hclear : ∀ post, Screen.sgrStep { Params.reset with values := plain off :: post } 0 s = (set false, 1)) :
    Leads 1 (if b ≠ b' then [decimal (if b' then on else off)] else []) s (set b') := by
  refine opt (fun _ => ?_) fun hsame => ?_
  · cases b' with
    | true => exact code hon fun post _ => hset post
    | false => exact code hoff fun post _ => hclear post
  · rw [← not_not.mp hsame, hs]

theorem underline (b : Underline) : Leads 2 [underlineParams b] s { s with underline := b } := by
  have hshape (k : ℕ) (hk : k < 10) (post : List Param) :
      Screen.sgrOf ([plain 4, attached k] ++ post) s = Screen.sgrOf post
        { s with underline := Underline.fromU8 k } := by
    have hmin : min k 255 = k := by omega
    have hstep : Screen.sgrStep { Params.reset with values := plain 4 :: attached k :: post } 0 s =
        ({ s with underline := Underline.fromU8 (min k 255) }, 1) := rfl
    have hread := Screen.sgrOf_step rfl hstep
    rw [hmin] at hread
    exact hread.trans (Screen.sgrOf_sub rfl)
  have hwritten (k : ℕ) (hk : k < 10) :
    Leads 2 [[0x34, 0x3A] ++ decimal k] s { s with underline := Underline.fromU8 k } := by
    have hwrite : [0x34, 0x3A] ++ decimal k = Params.writeValues [plain 4, attached k] := by
      have hfour : decimal 4 = [0x34] := by simp [decimal]
      simp [Params.writeValues, Params.writeValue, Params.writeNext, plain, attached, hfour]
    rw [hwrite]
    refine one ⟨fun v hv => ?_, 4, rfl⟩ le_rfl fun post _ => hshape k hk post
    rcases List.mem_pair.mp hv with rfl | rfl
    · exact ⟨show 4 ≤ u32Max by decide, fun h => Bool.noConfusion h⟩
    · exact ⟨show k ≤ u32Max by unfold u32Max; omega, fun h => Bool.noConfusion h⟩
  cases b with
  | none => exact (code (by decide) fun post _ => rfl).mono (by decide)
  | single =>
    refine (code (by decide) fun post hpost => ?_).mono (by decide)
    have hplain : ({ Params.reset with values := plain 4 :: post } : Params).isSub 1 = false := by
      cases post with
      | nil => rfl
      | cons v post => exact hpost v rfl
    change ({ s with underline := if ({ Params.reset with values := plain 4 :: post } : Params).isSub 1 then _ else .single }, 1) = _
    rw [hplain]
    rfl
  | double => exact hwritten 2 (by decide)
  | curly => exact hwritten 3 (by decide)
  | dotted => exact hwritten 4 (by decide)
  | dashed => exact hwritten 5 (by decide)

end Leads

section colors

theorem small_of_byte {n : ℕ} (h : n ≤ 255) (sub : Bool) :
    (Param.mk n true sub).value ≤ u32Max ∧ ((Param.mk n true sub).given = false → (Param.mk n true sub).value = 0) :=
  ⟨Nat.le_trans h (by decide), fun h => Bool.noConfusion h⟩

theorem byte_le (b : UInt8) : b.toNat ≤ 255 := Nat.le_of_lt_succ b.toNat_lt

theorem ofNat_byte (b : UInt8) : UInt8.ofNat (min b.toNat 255) = b := by
  rw [Nat.min_eq_left (byte_le b), UInt8.ofNat_toNat]

/-- An extended color after its code, its parts being plain parameters. -/
def extendedParams : Color → List Param
  | .default => []
  | .idx n => [plain 5, plain n.toNat]
  | .rgb r g b => [plain 2, plain r.toNat, plain g.toNat, plain b.toNat]

/-- The same with parts that colons attach, and an empty color space before the components. -/
def attachedParams : Color → List Param
  | .default => []
  | .idx n => [attached 5, attached n.toNat]
  | .rgb r g b => [attached 2, ⟨0, false, true⟩, attached r.toNat, attached g.toNat, attached b.toNat]

theorem part_extended {code : ℕ} (hcode : code ≤ 255) (color : Color) : Part (plain code :: extendedParams color) := by
  refine ⟨?_, code, rfl⟩
  cases color <;> simp only [extendedParams, List.forall_mem_cons]
  · exact ⟨small_of_byte hcode _, nofun⟩
  · exact ⟨small_of_byte hcode _, small_of_byte (by decide) _, small_of_byte (byte_le _) _, nofun⟩
  · exact ⟨small_of_byte hcode _, small_of_byte (by decide) _, small_of_byte (byte_le _) _, small_of_byte (byte_le _) _,
      small_of_byte (byte_le _) _, nofun⟩

theorem part_attached {code : ℕ} (hcode : code ≤ 255) (color : Color) : Part (plain code :: attachedParams color) := by
  refine ⟨?_, code, rfl⟩
  cases color <;> simp only [attachedParams, List.forall_mem_cons]
  · exact ⟨small_of_byte hcode _, nofun⟩
  · exact ⟨small_of_byte hcode _, small_of_byte (by decide) _, small_of_byte (byte_le _) _, nofun⟩
  · exact ⟨small_of_byte hcode _, small_of_byte (by decide) _,
      ⟨Nat.zero_le _, fun _ => trivial⟩, small_of_byte (byte_le _) _,
      small_of_byte (byte_le _) _, small_of_byte (byte_le _) _, nofun⟩

variable {color : Color} {code : ℕ}

theorem sgrColor_extended (color : Color) (hcolor : color ≠ .default) (code : ℕ) (post : List Param) :
    Screen.sgrColor { Params.reset with values := plain code :: (extendedParams color ++ post) } 0 =
      (color, (extendedParams color).length + 1) := by
  cases color with
  | default => exact absurd rfl hcolor
  | idx n => exact congrArg (fun n => (Color.idx n, 3)) (ofNat_byte n)
  | rgb r g b =>
    change (Color.rgb (UInt8.ofNat (min r.toNat 255)) (UInt8.ofNat (min g.toNat 255)) (UInt8.ofNat (min b.toNat 255)), 5) = _
    rw [ofNat_byte, ofNat_byte, ofNat_byte]
    rfl

theorem sgrColor_attached (color : Color) (hcolor : color ≠ .default) (code : ℕ) (post : List Param) :
    Screen.sgrColor { Params.reset with values := plain code :: (attachedParams color ++ post) } 0 =
      (color, (attachedParams color).length + 1) := by
  cases color with
  | default => exact absurd rfl hcolor
  | idx n => exact congrArg (fun n => (Color.idx n, 3)) (ofNat_byte n)
  | rgb r g b =>
    change (Color.rgb (UInt8.ofNat (min r.toNat 255)) (UInt8.ofNat (min g.toNat 255)) (UInt8.ofNat (min b.toNat 255)), 6) = _
    rw [ofNat_byte, ofNat_byte, ofNat_byte]
    rfl

theorem Leads.extended {g : List Param} (set : Color → Style) (hpart : Part (plain code :: g))
    (hread : ∀ post, Screen.sgrColor { Params.reset with values := plain code :: (g ++ post) } 0 = (color, g.length + 1))
    (hext : ∀ vs, Screen.sgrStep { Params.reset with values := plain code :: vs } 0 s =
      (set (Screen.sgrColor { Params.reset with values := plain code :: vs } 0).1,
        (Screen.sgrColor { Params.reset with values := plain code :: vs } 0).2)) :
    Leads (g.length + 1) [Params.writeValues (plain code :: g)] s (set color) := by
  refine Leads.one hpart le_rfl fun post _ => ?_
  have hstep := hext (g ++ post)
  rw [hread] at hstep
  have hmade := Screen.sgrOf_step rfl hstep
  rw [List.drop_left] at hmade
  exact hmade

theorem write_extended (code : ℕ) (color : Color) : Params.writeValues (plain code :: extendedParams color) =
    match color with
    | .default => decimal code
    | .idx n => decimal code ++ [0x3B, 0x35, 0x3B] ++ decimal n.toNat
    | .rgb r g b => decimal code ++ [0x3B, 0x32, 0x3B] ++ decimal r.toNat ++ [0x3B] ++ decimal g.toNat ++ [0x3B] ++
        decimal b.toNat := by
  have htwo : decimal 2 = [0x32] := by simp [decimal]
  have hfive : decimal 5 = [0x35] := by simp [decimal]
  cases color <;>
    simp [extendedParams, Params.writeValues, Params.writeValue, Params.writeNext, plain, htwo, hfive]

theorem write_attached (code : ℕ) (color : Color) : Params.writeValues (plain code :: attachedParams color) =
    match color with
    | .default => decimal code
    | .idx n => decimal code ++ [0x3A, 0x35, 0x3A] ++ decimal n.toNat
    | .rgb r g b =>
      decimal code ++ [0x3A, 0x32, 0x3A, 0x3A] ++ decimal r.toNat ++ [0x3A] ++ decimal g.toNat ++ [0x3A] ++
        decimal b.toNat := by
  have htwo : decimal 2 = [0x32] := by simp [decimal]
  have hfive : decimal 5 = [0x35] := by simp [decimal]
  cases color <;>
    simp [attachedParams, Params.writeValues, Params.writeValue, Params.writeNext, plain, attached, htwo, hfive]

theorem Leads.paint {base : ℕ} (set : Color → Style) (hbase : base ≤ 100) (hne : base ≠ 58)
    (hdefault : ∀ post, Screen.sgrStep { Params.reset with values := plain (base + 9) :: post } 0 s = (set .default, 1))
    (hlow : ∀ k < 8, ∀ post,
      Screen.sgrStep { Params.reset with values := plain (base + k) :: post } 0 s = (set (.idx (UInt8.ofNat k)), 1))
    (hbright : ∀ k < 16, 8 ≤ k → ∀ post,
      Screen.sgrStep { Params.reset with values := plain (base + 60 + k - 8) :: post } 0 s =
        (set (.idx (UInt8.ofNat k)), 1))
    (hext : ∀ vs, Screen.sgrStep { Params.reset with values := plain (base + 8) :: vs } 0 s =
      (set (Screen.sgrColor { Params.reset with values := plain (base + 8) :: vs } 0).1,
        (Screen.sgrColor { Params.reset with values := plain (base + 8) :: vs } 0).2)) (color : Color) :
    Leads 5 [colorParams base color] s (set color) := by
  have hcode : base + 8 ≤ 255 := by omega
  cases color with
  | default =>
    have hwrite : colorParams base .default = decimal (base + 9) := congrArg decimal (if_neg hne)
    rw [hwrite]
    exact (code (by omega) fun post _ => hdefault post).mono (by decide)
  | idx n =>
    unfold colorParams
    simp only [hne, if_false, ne_eq, not_false_eq_true, and_true]
    split_ifs with hfew hmore
    · have hk : n.toNat < 8 := hfew
      have hmade := hlow n.toNat hk
      rw [UInt8.ofNat_toNat] at hmade
      exact (code (by omega) fun post _ => hmade post).mono (by decide)
    · have hk : n.toNat < 16 := hmore
      have hmade := hbright n.toNat hk (Nat.le_of_not_lt hfew)
      rw [UInt8.ofNat_toNat] at hmade
      exact (code (by omega) fun post _ => hmade post).mono (by decide)
    · have hmade := extended set (part_extended hcode (.idx n))
        (sgrColor_extended (.idx n) (fun h => Color.noConfusion h) _) hext
      rw [write_extended] at hmade
      exact hmade.mono (by simp [extendedParams])
  | rgb r g b =>
    unfold colorParams
    simp only [hne, if_false]
    have hmade := extended set (part_extended hcode (.rgb r g b))
      (sgrColor_extended (.rgb r g b) (fun h => Color.noConfusion h) _) hext
    rw [write_extended] at hmade
    exact hmade.mono (by simp [extendedParams])

theorem Leads.foreground (color : Color) : Leads 5 [colorParams 30 color] s { s with fg := color } := by
  refine paint (fun color => { s with fg := color }) (by decide) (by decide) (fun _ => rfl) (fun k hk _ => ?_)
    (fun k hk hk' _ => ?_) (fun _ => rfl) color
  all_goals interval_cases k <;> rfl

theorem Leads.background (color : Color) : Leads 5 [colorParams 40 color] s { s with bg := color } := by
  refine paint (fun color => { s with bg := color }) (by decide) (by decide) (fun _ => rfl) (fun k hk _ => ?_)
    (fun k hk hk' _ => ?_) (fun _ => rfl) color
  all_goals interval_cases k <;> rfl

theorem Leads.line (color : Color) : Leads 6 [colorParams 58 color] s { s with ul := color } := by
  have hext (vs : List Param) : Screen.sgrStep { Params.reset with values := plain 58 :: vs } 0 s =
      ({ s with ul := (Screen.sgrColor { Params.reset with values := plain 58 :: vs } 0).1 },
        (Screen.sgrColor { Params.reset with values := plain 58 :: vs } 0).2) := rfl
  cases color with
  | default => exact (code (by decide) fun post _ => rfl).mono (by decide)
  | idx n =>
    have hmade := extended (fun color => { s with ul := color }) (part_attached (by decide) (.idx n))
      (sgrColor_attached (.idx n) (fun h => Color.noConfusion h) _) hext
    have hwrite : colorParams 58 (.idx n) = decimal 58 ++ [0x3A, 0x35, 0x3A] ++ decimal n.toNat := by simp [colorParams]
    rw [write_attached] at hmade
    rw [hwrite]
    exact hmade.mono (by simp [attachedParams])
  | rgb r g b =>
    have hmade := extended (fun color => { s with ul := color }) (part_attached (by decide) (.rgb r g b))
      (sgrColor_attached (.rgb r g b) (fun h => Color.noConfusion h) _) hext
    rw [write_attached] at hmade
    exact hmade

end colors

theorem leads_intensity (s : Style) (bold dim : Bool) {off : Bool} (hoff : off = (s.bold && !bold || s.dim && !dim)) :
    Leads 3 ((if off then [decimal 22] else []) ++ (if bold && (off || !s.bold) then [decimal 1] else []) ++
      (if dim && (off || !s.dim) then [decimal 2] else [])) s { s with bold := bold, dim := dim } := by
  have hcleared : Leads 1 (if off then [decimal 22] else []) s { s with bold := s.bold && !off, dim := s.dim && !off } := by
    refine Leads.opt (fun h => ?_) fun h => ?_
    · rw [h, Bool.not_true, Bool.and_false, Bool.and_false]
      exact Leads.code (by decide) fun post _ => rfl
    · rw [Bool.not_eq_true] at h
      rw [h, Bool.not_false, Bool.and_true, Bool.and_true]
  have hbold : Leads 1 (if bold && (off || !s.bold) then [decimal 1] else [])
      { s with bold := s.bold && !off, dim := s.dim && !off } { s with bold := bold, dim := s.dim && !off } := by
    refine Leads.opt (fun h => ?_) fun h => ?_
    · rw [(Bool.and_eq_true_iff.mp h).1]
      exact Leads.code (by decide) fun post _ => rfl
    · have hsame : (s.bold && !off) = bold := by
        revert h
        rw [hoff]
        cases s.bold <;> cases bold <;> cases s.dim <;> cases dim <;> decide
      rw [hsame]
  have hdim : Leads 1 (if dim && (off || !s.dim) then [decimal 2] else [])
      { s with bold := bold, dim := s.dim && !off } { s with bold := bold, dim := dim } := by
    refine Leads.opt (fun h => ?_) fun h => ?_
    · rw [(Bool.and_eq_true_iff.mp h).1]
      exact Leads.code (by decide) fun post _ => rfl
    · have hsame : (s.dim && !off) = dim := by
        revert h
        rw [hoff]
        cases s.bold <;> cases bold <;> cases s.dim <;> cases dim <;> decide
      rw [hsame]
  exact (hcleared.append hbold).append hdim

theorem Leads.change {α : Type} [DecidableEq α] (set : α → Style) {a a' : α} (hs : set a = s)
    (h : Leads n parts s (set a')) : Leads n (if a ≠ a' then parts else []) s (set a') :=
  opt (fun _ => h) fun hsame => by rw [← not_not.mp hsame, hs]

theorem leads_sgrParts (s target : Style) : Leads 27 (sgrParts s target) s (target.withLink s.link) := by
  let s₁ : Style := { s with bold := target.bold, dim := target.dim }
  let s₂ : Style := { s₁ with italic := target.italic }
  let s₃ : Style := { s₂ with underline := target.underline }
  let s₄ : Style := { s₃ with blink := target.blink }
  let s₅ : Style := { s₄ with inverse := target.inverse }
  let s₆ : Style := { s₅ with hidden := target.hidden }
  let s₇ : Style := { s₆ with strike := target.strike }
  let s₈ : Style := { s₇ with overline := target.overline }
  let s₉ : Style := { s₈ with fg := target.fg }
  let s₁₀ : Style := { s₉ with bg := target.bg }
  have h₁ : Leads 3 _ s s₁ := leads_intensity s target.bold target.dim rfl
  have h₂ := h₁.append (Leads.flag (fun b => { s₁ with italic := b }) 3 23 target.italic (by decide) (by decide)
    rfl (fun _ => rfl) fun _ => rfl)
  have h₃ := h₂.append (Leads.change (fun u => { s₂ with underline := u }) rfl (Leads.underline target.underline))
  have h₄ := h₃.append (Leads.flag (fun b => { s₃ with blink := b }) 5 25 target.blink (by decide) (by decide)
    rfl (fun _ => rfl) fun _ => rfl)
  have h₅ := h₄.append (Leads.flag (fun b => { s₄ with inverse := b }) 7 27 target.inverse (by decide) (by decide)
    rfl (fun _ => rfl) fun _ => rfl)
  have h₆ := h₅.append (Leads.flag (fun b => { s₅ with hidden := b }) 8 28 target.hidden (by decide) (by decide)
    rfl (fun _ => rfl) fun _ => rfl)
  have h₇ := h₆.append (Leads.flag (fun b => { s₆ with strike := b }) 9 29 target.strike (by decide) (by decide)
    rfl (fun _ => rfl) fun _ => rfl)
  have h₈ := h₇.append (Leads.flag (fun b => { s₇ with overline := b }) 53 55 target.overline (by decide) (by decide)
    rfl (fun _ => rfl) fun _ => rfl)
  have h₉ := h₈.append (Leads.change (fun c => { s₈ with fg := c }) rfl (Leads.foreground target.fg))
  have h₁₀ := h₉.append (Leads.change (fun c => { s₉ with bg := c }) rfl (Leads.background target.bg))
  exact h₁₀.append (Leads.change (fun c => { s₁₀ with ul := c }) rfl (Leads.line target.ul))

theorem intercalate_parts {groups : List (List Param)} (hparts : ∀ g ∈ groups, Part g) :
    [0x3B].intercalate (groups.map Params.writeValues) = Params.writeValues groups.flatten := by
  induction groups with
  | nil => rfl
  | cons g groups ih =>
    cases groups with
    | nil => simp
    | cons g' groups =>
      have hrest := ih fun g hg => hparts g (List.mem_cons_of_mem _ hg)
      obtain ⟨n, hfirst⟩ := (hparts g List.mem_cons_self).first
      obtain ⟨n', hfirst'⟩ := (hparts g' (List.mem_cons_of_mem _ List.mem_cons_self)).first
      obtain ⟨us, rfl⟩ := List.head?_eq_some_iff.mp hfirst
      obtain ⟨us', rfl⟩ := List.head?_eq_some_iff.mp hfirst'
      rw [List.map_cons, List.map_cons, List.intercalate_cons_cons, ← List.map_cons, hrest]
      simp [Params.writeValues, Params.writeNext, plain]

theorem Leads.scan {parts : List (List UInt8)} (h : Leads n parts s s') (hn : n ≤ maxParams) (hne : parts ≠ []) :
    ∃ vs, vs ≠ [] ∧ ([0x3B].intercalate parts).foldl Params.scan .reset = { Params.reset with values := vs } ∧
      (∀ b ∈ [0x3B].intercalate parts, 0x20 ≤ b ∧ b ≤ 0x3F) ∧ Screen.sgrOf vs s = s' := by
  obtain ⟨groups, rfl, hlen, hparts, hmakes⟩ := h
  rw [intercalate_parts hparts]
  cases groups with
  | nil => exact absurd rfl hne
  | cons g groups =>
    obtain ⟨k, hfirst⟩ := (hparts g List.mem_cons_self).first
    obtain ⟨us, rfl⟩ := List.head?_eq_some_iff.mp hfirst
    have hsmall : ∀ v ∈ ((plain k :: us) :: groups).flatten, v.value ≤ u32Max ∧ (v.given = false → v.value = 0) := by
      intro v hv
      obtain ⟨g, hg, hv⟩ := List.mem_flatten.mp hv
      exact (hparts g hg).small v hv
    have hfit := Params.fit_of_small (v := plain k) hsmall (Nat.le_trans hlen hn) rfl ⟨rfl, rfl⟩
    refine ⟨_, by simp, Params.scan_writeValues (q := .reset) hfit rfl, Params.writeValues_range _, ?_⟩
    have hall := hmakes [] nofun
    rwa [List.append_nil] at hall

theorem leads_reset (s : Style) : Leads 1 [decimal 0] s (Screen.resetStyle s) :=
  Leads.code (by decide) fun post _ => rfl

theorem Leads.ne_nil (h : Leads n parts s s') (hs : s ≠ s') : parts ≠ [] := by
  rintro rfl
  obtain ⟨groups, hnil, -, -, hmakes⟩ := h
  obtain rfl := List.map_eq_nil_iff.mp hnil.symm
  exact hs (hmakes [] nofun)

variable {I : Type}

/-- Whatever chunks the bytes come in, they are commands in full for a screen, and make its style another. -/
def Renders (x : Externs I) (bytes : List UInt8) (s : Screen I) (style : Style) : Prop :=
  ∀ scanner : Scanner, scanner.mode = .output → scanner.state = .ground → ∀ chunks : List (List UInt8),
    chunks.flatten = bytes → ∃ ps : List Params,
      (scanner.feeds chunks).2 = ps.map .csi ∧ (scanner.feeds chunks).1.state = .ground ∧
      (∀ p ∈ ps, p.invalid = false) ∧ ps.foldl Screen.sgr s = { s with style := style } ∧
      ((scanner.feeds chunks).2.foldlM (Screen.apply x) s).map Screen.style = some style

@[simp] theorem Screen.putGrid_style (s : Screen I) (g : Grid) : (s.putGrid g).style = s.style := by
  unfold Screen.putGrid
  split <;> rfl

@[simp] theorem Screen.currentLinkId_style (s : Screen I) : s.currentLinkId.2.style = s.style := by
  unfold Screen.currentLinkId
  cases s.link with
  | none => rfl
  | some link =>
    simp only
    split
    · rfl
    · split <;> exact s.putGrid_style _

@[simp] theorem Screen.styleId_style (s : Screen I) : s.styleId.2.style = s.style :=
  (Screen.putGrid_style _ _).trans s.currentLinkId_style

theorem Screen.sgr_eq {p : Params} (s : Screen I) (h : p.values ≠ []) :
    s.sgr p = { s with style := Screen.sgrOf p.values s.style } := by
  have hsame : Screen.sgrFrom p p.values.length 0 s.style = Screen.sgrOf p.values s.style :=
    Screen.sgrFrom_of_drop rfl (by simp) (by simp)
  unfold Screen.sgr
  rw [if_neg (by simpa using h), hsame]

theorem Leads.renders (x : Externs I) {s : Screen I} {style : Style} (h : Leads n parts s.style style)
    (hn : n ≤ maxParams)
    (hne : parts ≠ []) : Renders x ([0x1B, 0x5B] ++ [0x3B].intercalate parts ++ [0x6D]) s style := by
  obtain ⟨vs, hvs, hscan, hrange, hmade⟩ := h.scan hn hne
  intro scanner hmode hground chunks hchunks
  have hfinal : (0x40 : UInt8) ≤ 0x6D ∧ (0x6D : UInt8) ≤ 0x7E := by decide
  obtain ⟨hcore, hitems⟩ := Scanner.feeds_command hground hrange hfinal (by decide) (hchunks.trans (by simp))
  rw [hscan] at hitems
  have hsgr (s : Screen I) := Screen.sgr_eq (p := { Params.reset with values := vs, final := 0x6D }) s hvs
  refine ⟨[{ Params.reset with values := vs, final := 0x6D }], hitems, ?_, ?_, ?_, ?_⟩
  · rw [← Scanner.core_state, hcore, Scanner.core_state, hground]
  · simp [Params.reset]
  · rw [List.foldl_cons, List.foldl_nil, hsgr, hmade]
  · have hcsi : s.apply x (.csi { Params.reset with values := vs, final := 0x6D }) =
        some (s.styleId.2.sgr { Params.reset with values := vs, final := 0x6D }) := rfl
    rw [hitems, List.foldlM_cons, hcsi, hsgr]
    simp only [Screen.styleId_style, hmade]
    rfl

theorem renders_nil (x : Externs I) (s : Screen I) : Renders x [] s s.style := by
  intro scanner hmode hground chunks hchunks
  obtain ⟨hcore, hspell⟩ := Scanner.feeds_flatten scanner chunks
  rw [hchunks, Scanner.feed_nil] at hcore hspell
  have hitems := Scanner.spell_eq_nil (Scanner.full_feeds scanner chunks) hspell
  refine ⟨[], hitems, ?_, nofun, rfl, ?_⟩
  · rw [← Scanner.core_state, hcore, Scanner.core_state, hground]
  · rw [hitems]
    rfl

theorem decimal_zero : decimal 0 = [0x30] := by simp [decimal]

theorem renders_reset (x : Externs I) (s : Screen I) :
    Renders x [0x1B, 0x5B, 0x30, 0x6D] s (Screen.resetStyle s.style) := by
  have hreset := (leads_reset s.style).renders x (by decide) nofun
  rwa [List.intercalate_singleton, decimal_zero] at hreset

theorem withLink_withLink (style : Style) (l l' : LinkId) : (style.withLink l).withLink l' = style.withLink l' := rfl

theorem renders_sgr (x : Externs I) (s : Screen I) (target : Style) :
    Renders x (sgr s.style target) s (target.withLink s.style.link) := by
  unfold sgr
  simp only
  split_ifs with hsame hdefault
  · have hstyle : target.withLink s.style.link = s.style := by
      rw [← withLink_withLink target 0, ← hsame]
      rfl
    rw [hstyle]
    exact renders_nil x s
  · have hstyle : target.withLink s.style.link = Screen.resetStyle s.style := by
      rw [← withLink_withLink target 0, hdefault]
      rfl
    rw [hstyle]
    exact renders_reset x s
  · have hleads := leads_sgrParts s.style target
    refine hleads.renders x (by decide) (hleads.ne_nil fun h => hsame ?_)
    rw [h]
    rfl

theorem strip_sgr (params : List UInt8) : ([0x1B, 0x5B].isPrefixOf? ([0x1B, 0x5B] ++ params ++ [0x6D])).bind
    [0x6D].isSuffixOf? = some params := by
  simp [List.isPrefixOf?, List.isSuffixOf?]

theorem renders_sgrFull (x : Externs I) (s : Screen I) (target : Style) :
    Renders x ([0x1B, 0x5B] ++ sgrFull target) s (target.withLink s.style.link) := by
  have hleads := leads_sgrParts .default target
  by_cases hsame : Style.default = target.withLink 0
  · have hnone : sgr .default target = [] := if_pos hsame
    have hbytes : [0x1B, 0x5B] ++ sgrFull target = [0x1B, 0x5B, 0x30, 0x6D] := by
      unfold sgrFull
      rw [hnone]
      rfl
    have hstyle : target.withLink s.style.link = Screen.resetStyle s.style := by
      rw [← withLink_withLink target 0, ← hsame]
      rfl
    rw [hbytes, hstyle]
    exact renders_reset x s
  · have hne := hleads.ne_nil hsame
    have hseq : sgr .default target = [0x1B, 0x5B] ++ [0x3B].intercalate (sgrParts .default target) ++ [0x6D] :=
      (if_neg hsame).trans (if_neg fun h => hsame h.symm)
    obtain ⟨vs, hvs, hscan, -, hmade⟩ := hleads.scan (by decide) hne
    have hsome : [0x3B].intercalate (sgrParts .default target) ≠ [] := by
      intro hnil
      rw [hnil] at hscan
      exact hvs (congrArg Params.values hscan).symm
    have hzero : [0x3B].intercalate (sgrParts .default target) ≠ [0x30] := by
      intro hzero
      rw [hzero] at hscan
      obtain rfl : [plain 0] = vs := congrArg Params.values hscan
      exact hsame hmade
    have hbytes : [0x1B, 0x5B] ++ sgrFull target =
        [0x1B, 0x5B] ++ [0x3B].intercalate ([decimal 0] ++ sgrParts .default target) ++ [0x6D] := by
      unfold sgrFull
      rw [hseq, strip_sgr]
      simp only [ne_eq, hsome, hzero, not_false_eq_true, and_self, if_true]
      obtain ⟨part, parts, hparts⟩ := List.exists_cons_of_ne_nil hne
      rw [hparts, List.singleton_append, List.intercalate_cons_cons, decimal_zero]
      simp
    rw [hbytes]
    have hall := (leads_reset s.style).append (leads_sgrParts (Screen.resetStyle s.style) target)
    exact hall.renders x (by decide) (by simp)

end Term

end Dekit
