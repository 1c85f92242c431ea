import Dekit.Term.Sixel

/-! What sixel data does to the canvas, item by item, and when it is too far out for `u32`. -/

namespace Dekit.Term.Sixel

open Vt (u32Max)

theorem addU32_eq {a b : ℕ} (h : a + b ≤ u32Max) : addU32 a b = some (a + b) := Slice.add_eq (Nat.lt_succ_of_le h)

theorem addU32_none {a b : ℕ} (h : u32Max < a + b) : addU32 a b = none := if_neg (by omega)

theorem mulU64_eq {a b : ℕ} (ha : a ≤ u32Max) (hb : b ≤ u32Max) : mulU64 a b = some (a * b) := by
  have hle := Nat.mul_le_mul ha hb
  have : u32Max * u32Max < 18446744073709551616 := by decide
  exact if_pos (by omega)

namespace Decoder

variable {d d' : Decoder} {w h count bits : ℕ}

/-- The canvas has a cell for each pixel and is bounded, and the position is a `u32`. -/
structure Good (d : Decoder) : Prop where
  cells : d.canvas.length = d.width * d.height
  bound : d.width * d.height ≤ maxPixels
  width : d.width ≤ maxPixels
  height : d.height ≤ maxPixels
  x : d.x ≤ u32Max
  y : d.y ≤ u32Max

theorem good_new (transparent : Bool) : (new transparent).Good where
  cells := rfl
  bound := Nat.zero_le _
  width := Nat.zero_le _
  height := Nat.zero_le _
  x := Nat.zero_le _
  y := Nat.zero_le _

theorem copyRow_keeps (hd : d.Good) {newW newH y : ℕ} (hw : d.width ≤ newW) (hh : d.height ≤ newH) (hy : y < d.height)
    {canvas : List ℕ} (hc : canvas.length = newW * newH) :
    ∃ canvas', d.copyRow newW canvas y = some canvas' ∧ canvas'.length = newW * newH := by
  have hsrc : (y + 1) * d.width ≤ d.canvas.length := by
    rw [hd.cells, Nat.mul_comm d.width]
    exact Nat.mul_le_mul_right d.width hy
  have hstart : y * d.width ≤ (y + 1) * d.width := Nat.mul_le_mul_right d.width (Nat.le_succ y)
  have hrow : y * newW + d.width ≤ canvas.length := by
    have hle : (y + 1) * newW ≤ newH * newW := Nat.mul_le_mul_right newW (Nat.lt_of_lt_of_le hy hh)
    rw [hc, Nat.mul_comm newW]
    rw [Nat.succ_mul] at hle
    omega
  unfold copyRow
  rw [Slice.range_eq hstart hsrc, Option.bind_some, Slice.onRange_eq (Nat.le_add_right _ _) hrow]
  refine ⟨_, rfl, ?_⟩
  simp only [List.length_append, List.length_take, List.length_drop]
  rw [Nat.succ_mul] at hsrc ⊢
  omega

theorem ensure_spec (hd : d.Good) (hw : 0 < w) (hh : 0 < h) (hw' : w ≤ u32Max) (hh' : h ≤ u32Max) :
    (maxPixels < max w d.width * max h d.height → d.ensure w h = some none) ∧
    (max w d.width * max h d.height ≤ maxPixels → ∃ d', d.ensure w h = some (some d') ∧ d'.Good ∧
      d'.width = max w d.width ∧ d'.height = max h d.height ∧ d'.x = d.x ∧ d'.y = d.y) := by
  have hmax : maxPixels ≤ u32Max := by decide
  unfold ensure
  by_cases hfits : w ≤ d.width ∧ h ≤ d.height
  · rw [if_pos hfits, Nat.max_eq_right hfits.1, Nat.max_eq_right hfits.2]
    exact ⟨fun hover => absurd hd.bound (Nat.not_le.mpr hover), fun _ => ⟨d, rfl, hd, rfl, rfl, rfl, rfl⟩⟩
  · rw [if_neg hfits]
    have hmul : mulU64 (max w d.width) (max h d.height) = some (max w d.width * max h d.height) :=
      mulU64_eq (Nat.max_le.mpr ⟨hw', Nat.le_trans hd.width hmax⟩) (Nat.max_le.mpr ⟨hh', Nat.le_trans hd.height hmax⟩)
    simp only [hmul, Option.bind_some]
    refine ⟨fun hover => if_pos hover, fun hbound => ?_⟩
    rw [if_neg (Nat.not_lt.mpr hbound)]
    obtain ⟨canvas, hfold, hlen⟩ := Slice.foldlM_keeps (f := d.copyRow (max w d.width)) (l := List.range d.height)
      (P := fun canvas : List ℕ => canvas.length = max w d.width * max h d.height)
      (fun canvas hc y hy =>
        copyRow_keeps hd (Nat.le_max_right _ _) (Nat.le_max_right _ _) (List.mem_range.mp hy) hc)
      (x := List.replicate (max w d.width * max h d.height) 0) List.length_replicate
    rw [hfold]
    have hpos : 0 < max w d.width := Nat.lt_of_lt_of_le hw (Nat.le_max_left _ _)
    have hpos' : 0 < max h d.height := Nat.lt_of_lt_of_le hh (Nat.le_max_left _ _)
    exact ⟨_, rfl, ⟨hlen, hbound, Nat.le_trans (Nat.le_mul_of_pos_right _ hpos') hbound,
      Nat.le_trans (Nat.le_mul_of_pos_left _ hpos) hbound, hd.x, hd.y⟩, rfl, rfl, rfl, rfl⟩

theorem plotRow_keeps (hd : d.Good) (hx : d.x + count ≤ d.width) (hy : d.y + 6 ≤ d.height) (bits : ℕ) {n : ℕ}
    (hn : n < 6) {canvas : List ℕ} (hc : canvas.length = d.width * d.height) :
    ∃ canvas', d.plotRow bits count canvas n = some canvas' ∧ canvas'.length = d.width * d.height := by
  have hmax : maxPixels ≤ u32Max := by decide
  have hwidth := hd.width
  have hheight := hd.height
  unfold plotRow
  split
  · rw [addU32_eq (by omega), Option.bind_some, addU32_eq (by omega), Option.bind_some]
    refine Slice.foldlM_keeps (P := fun canvas : List ℕ => canvas.length = d.width * d.height)
      (fun canvas hc x hx' => ?_) hc
    obtain ⟨hlow, hhigh⟩ := List.mem_range'_1.mp hx'
    have hrow : (d.y + n + 1) * d.width ≤ d.height * d.width := Nat.mul_le_mul_right _ (by omega)
    rw [Nat.succ_mul, Nat.mul_comm d.height] at hrow
    have hin : (d.y + n) * d.width + x < canvas.length := by omega
    exact ⟨_, Slice.setAt_eq hin _, by rw [List.length_set, hc]⟩
  · exact ⟨canvas, rfl, hc⟩

theorem plot_spec (hd : d.Good) (hx : d.x + count ≤ d.width) (hy : d.y + 6 ≤ d.height) (bits : ℕ) :
    ∃ canvas, d.plot bits count = some { d with canvas := canvas } ∧ canvas.length = d.width * d.height := by
  obtain ⟨canvas, hfold, hlen⟩ := Slice.foldlM_keeps (f := d.plotRow bits count) (l := List.range 6)
    (P := fun canvas : List ℕ => canvas.length = d.width * d.height)
    (fun canvas hc n hn => plotRow_keeps hd hx hy bits (List.mem_range.mp hn) hc) hd.cells
  exact ⟨canvas, by rw [plot, hfold]; rfl, hlen⟩

theorem sixel_blank (d : Decoder) (count : ℕ) :
    (u32Max < d.x + count → d.sixel 0 count = none) ∧
    (d.x + count ≤ u32Max → d.sixel 0 count = some (some { d with x := d.x + count })) := by
  unfold sixel
  refine ⟨fun hover => ?_, fun hfits => ?_⟩
  · simp only [if_true, Option.bind_some]
    rw [addU32_none hover]
    rfl
  · simp only [if_true, Option.bind_some]
    rw [addU32_eq hfits]
    rfl

theorem sixel_drawn (hd : d.Good) (hbits : bits ≠ 0) (hcount : 0 < count) :
    (maxPixels < max (d.x + count) d.width * max (d.y + 6) d.height → d.sixel bits count = some none) ∧
    (max (d.x + count) d.width * max (d.y + 6) d.height ≤ maxPixels → ∃ d', d.sixel bits count = some (some d') ∧
      d'.Good ∧ d'.width = max (d.x + count) d.width ∧ d'.height = max (d.y + 6) d.height ∧
      d'.x = d.x + count ∧ d'.y = d.y) := by
  have hmax : maxPixels ≤ u32Max := by decide
  have hleft : max (d.x + count) d.width ≤ max (d.x + count) d.width * max (d.y + 6) d.height :=
    Nat.le_mul_of_pos_right _ (Nat.lt_of_lt_of_le (by omega) (Nat.le_max_left _ _))
  have hright : max (d.y + 6) d.height ≤ max (d.x + count) d.width * max (d.y + 6) d.height :=
    Nat.le_mul_of_pos_left _ (Nat.lt_of_lt_of_le (by omega) (Nat.le_max_left _ _))
  have hw := Nat.le_max_left (d.x + count) d.width
  have hh := Nat.le_max_left (d.y + 6) d.height
  unfold sixel
  by_cases hx : d.x + count ≤ u32Max
  · by_cases hy : d.y + 6 ≤ u32Max
    · obtain ⟨hrefused, hmade⟩ := ensure_spec hd (w := d.x + count) (h := d.y + 6) (by omega) (by omega) hx hy
      refine ⟨fun hover => ?_, fun hbound => ?_⟩
      · simp only [if_neg hbits]
        rw [addU32_eq hx, addU32_eq hy]
        simp only [hrefused hover, Option.bind_some]
      · obtain ⟨d', hensure, hgood, hwidth, hheight, hx', hy'⟩ := hmade hbound
        obtain ⟨canvas, hplot, hlen⟩ := plot_spec hgood (show d'.x + count ≤ d'.width by omega) (by omega) bits
        simp only [if_neg hbits]
        rw [addU32_eq hx, addU32_eq hy]
        simp only [hensure, Option.bind_some, hplot, Option.map_some]
        rw [addU32_eq (by omega)]
        exact ⟨_, rfl, ⟨hlen, hgood.bound, hgood.width, hgood.height, by simp only; omega, hgood.y⟩, hwidth, hheight,
          by simp only; omega, hy'⟩
    · refine ⟨fun _ => ?_, fun hbound => absurd hbound (by omega)⟩
      simp only [if_neg hbits]
      rw [addU32_eq hx, addU32_none (Nat.not_le.mp hy)]
      rfl
  · refine ⟨fun _ => ?_, fun hbound => absurd hbound (by omega)⟩
    simp only [if_neg hbits]
    rw [addU32_none (Nat.not_le.mp hx)]
    rfl

theorem setColor_spec (hlsToRgb : ℕ → ℕ → ℕ → Rgb) (d : Decoder) (params : List ℕ) :
    ∃ palette color, d.setColor hlsToRgb params = some { d with palette := palette, color := color } := by
  unfold setColor
  cases params with
  | nil => exact ⟨d.palette, d.color, rfl⟩
  | cons first defined =>
    simp only
    split
    · rw [Slice.setAt_eq (by simp only [List.length_append, List.length_replicate]; omega)]
      exact ⟨_, _, rfl⟩
    · exact ⟨d.palette, _, rfl⟩

end Decoder

theorem readFrom_le (params : List ℕ) (current : Option ℕ) (i : ℕ) (data : List UInt8) (hp : ∀ n ∈ params, n ≤ u32Max)
    (hc : ∀ n ∈ current, n ≤ u32Max) : ∀ n ∈ (readFrom params current i data).1, n ≤ u32Max := by
  have hall : ∀ n ∈ params ++ current.toList, n ≤ u32Max := by
    intro n hn
    rcases List.mem_append.mp hn with hn | hn
    · exact hp n hn
    · exact hc n (Option.mem_toList.mp hn)
  induction data generalizing params current i with
  | nil => exact hall
  | cons b data ih =>
    rw [readFrom]
    split
    · have hnext : ∀ n ∈ some (min (min (current.getD 0 * 10) u32Max + (b.toNat - 0x30)) u32Max), n ≤ u32Max := by
        intro n hn
        obtain rfl := Option.some.inj hn
        exact Nat.min_le_right _ _
      refine ih _ _ _ hp hnext fun n hn => ?_
      rcases List.mem_append.mp hn with hn | hn
      · exact hp n hn
      · exact hnext n (Option.mem_toList.mp hn)
    · split
      · have hpushed : ∀ n ∈ params ++ [current.getD 0], n ≤ u32Max := by
          intro n hn
          rcases List.mem_append.mp hn with hn | hn
          · exact hp n hn
          · rw [List.mem_singleton.mp hn]
            cases current with
            | none => exact Nat.zero_le _
            | some c => exact hc c rfl
        exact ih _ _ _ hpushed nofun (by simpa using hpushed)
      · exact hall

theorem readParams_le (data : List UInt8) : ∀ n ∈ (readParams data).1, n ≤ u32Max :=
  readFrom_le [] none 0 data nofun nofun

/-- What the data draws: raster attributes that are taken, the ends of a line, and columns with pixels in them or none. -/
inductive Item
  | raster (w h : ℕ)
  | cr
  | lf
  | drawn (count : ℕ)
  | blank (count : ℕ)
  | other

def rasterItem (params : List ℕ) : Item :=
  match params[2]?, params[3]? with
  | some w, some h => if 0 < w ∧ 0 < h ∧ w * h ≤ maxPixels then .raster w h else .other
  | _, _ => .other

/-- The item that starts with a byte, the repeat count left after it, and how many more bytes it takes. -/
def itemOf (repeat' : Option ℕ) (b : UInt8) (rest : List UInt8) : Item × Option ℕ × ℕ :=
  let (params, next) := readParams rest
  if b = 0x22 then (rasterItem params, repeat', next)
  else if b = 0x23 then (.other, repeat', next)
  else if b = 0x21 then (.other, some (max (params.head?.getD 1) 1), next)
  else if b = 0x24 then (.cr, repeat', 0)
  else if b = 0x2D then (.lf, repeat', 0)
  else if 0x3F ≤ b ∧ b ≤ 0x7E then
    (if b = 0x3F then .blank (repeat'.getD 1) else .drawn (repeat'.getD 1), none, 0)
  else (.other, repeat', 0)

def items (repeat' : Option ℕ) (data : List UInt8) : List Item :=
  match data with
  | [] => []
  | b :: rest =>
    let (item, repeat', taken) := itemOf repeat' b rest
    item :: items repeat' (rest.drop taken)
termination_by data.length
decreasing_by
  simp only [List.length_drop, List.length_cons]
  omega

section

/-! Where the items done so far, the last one first, leave off, and the size they need. -/

def column : List Item → ℕ
  | [] => 0
  | .cr :: _ | .lf :: _ => 0
  | .drawn count :: done | .blank count :: done => column done + count
  | _ :: done => column done

def row : List Item → ℕ
  | [] => 0
  | .lf :: done => row done + 6
  | _ :: done => row done

def width : List Item → ℕ
  | [] => 0
  | .raster w _ :: done => max w (width done)
  | .drawn count :: done => max (column done + count) (width done)
  | _ :: done => width done

def height : List Item → ℕ
  | [] => 0
  | .raster _ h :: done => max h (height done)
  | .drawn _ :: done => max (row done + 6) (height done)
  | _ :: done => height done

/-- A line feed or columns with nothing in them that lead out of the range of `u32`. -/
def Leaves (done : List Item) : Item → Prop
  | .lf => u32Max < row done + 6
  | .blank count => u32Max < column done + count
  | _ => False

end

theorem size_le (item : Item) (done : List Item) :
    width done * height done ≤ width (item :: done) * height (item :: done) := by
  cases item with
  | raster w h => exact Nat.mul_le_mul (Nat.le_max_right _ _) (Nat.le_max_right _ _)
  | drawn count => exact Nat.mul_le_mul (Nat.le_max_right _ _) (Nat.le_max_right _ _)
  | _ => exact le_rfl

/-- The decoder is where the items done so far leave off. -/
structure Tracks (d : Decoder) (done : List Item) : Prop where
  good : d.Good
  x : d.x = column done
  y : d.y = row done
  width : d.width = width done
  height : d.height = height done

theorem tracks_new (transparent : Bool) : Tracks (.new transparent) [] :=
  ⟨Decoder.good_new transparent, rfl, rfl, rfl, rfl⟩

section step

variable {hlsToRgb : ℕ → ℕ → ℕ → Rgb} {d : Decoder} {done : List Item} {repeat' : Option ℕ} {b : UInt8}
    {rest : List UInt8}

/-- How a step goes that draws an item and leaves `left`. -/
structure Draws (done : List Item) (item : Item) (left : Option ℕ × ℕ)
    (made : Option (Option (Decoder × Option ℕ × ℕ))) : Prop where
  leaves : Leaves done item → made = none
  refused : maxPixels < Sixel.width (item :: done) * Sixel.height (item :: done) → made = some none
  kept : ¬ Leaves done item → Sixel.width (item :: done) * Sixel.height (item :: done) ≤ maxPixels →
    ∃ d, made = some (some (d, left)) ∧ Tracks d (item :: done)

variable (ht : Tracks d done)
include ht

theorem draws_other (left : Option ℕ × ℕ) {d' : Decoder} (hd' : Tracks d' (.other :: done)) :
    Draws done .other left (some (some (d', left))) where
  leaves := False.elim
  refused h := by
    have hbound := ht.good.bound
    rw [ht.width, ht.height] at hbound
    exact absurd hbound (Nat.not_le.mpr h)
  kept _ _ := ⟨d', rfl, hd'⟩

theorem draws_raster (params : List ℕ) (hp : ∀ n ∈ params, n ≤ u32Max) (left : Option ℕ × ℕ) :
    Draws done (rasterItem params) left ((d.raster params).map (·.map fun d => (d, left))) := by
  have hother : Draws done .other left (some (some (d, left))) :=
    draws_other ht left ⟨ht.good, ht.x, ht.y, ht.width, ht.height⟩
  unfold rasterItem Decoder.raster
  cases hw : params[2]? with
  | none => exact hother
  | some w =>
    cases hh : params[3]? with
    | none => exact hother
    | some h =>
    simp only
    have hw' := hp w (List.mem_of_getElem? hw)
    have hh' := hp h (List.mem_of_getElem? hh)
    by_cases hpos : 0 < w ∧ 0 < h
    · rw [if_pos hpos, mulU64_eq hw' hh', Option.bind_some]
      by_cases hsize : w * h ≤ maxPixels
      · rw [if_pos ⟨hpos.1, hpos.2, hsize⟩, if_pos hsize]
        have hgood : ({ d with declared := some (w, h) } : Decoder).Good :=
          ⟨ht.good.cells, ht.good.bound, ht.good.width, ht.good.height, ht.good.x, ht.good.y⟩
        obtain ⟨hrefused, hmade⟩ := Decoder.ensure_spec hgood hpos.1 hpos.2 hw' hh'
        have hwide : Sixel.width (.raster w h :: done) = max w d.width := by
          rw [ht.width]
          rfl
        have hhigh : Sixel.height (.raster w h :: done) = max h d.height := by
          rw [ht.height]
          rfl
        refine ⟨False.elim, fun hover => ?_, fun _ hbound => ?_⟩
        · rw [hwide, hhigh] at hover
          rw [hrefused hover]
          rfl
        · rw [hwide, hhigh] at hbound
          obtain ⟨d', hensure, hgood', hwidth, hheight, hx, hy⟩ := hmade hbound
          rw [hensure]
          exact ⟨d', rfl, hgood', hx.trans ht.x, hy.trans ht.y, hwidth.trans hwide.symm, hheight.trans hhigh.symm⟩
      · rw [if_neg fun hall => hsize hall.2.2, if_neg hsize]
        exact hother
    · rw [if_neg hpos, if_neg fun hall => hpos ⟨hall.1, hall.2.1⟩]
      exact hother

theorem draws_sixel (bits count : ℕ) (hcount : 0 < count) (left : Option ℕ × ℕ) :
    Draws done (if bits = 0 then .blank count else .drawn count) left
      ((d.sixel bits count).map (·.map fun d => (d, left))) := by
  by_cases hbits : bits = 0
  · subst hbits
    obtain ⟨hover, hfits⟩ := Decoder.sixel_blank d count
    rw [if_pos rfl]
    refine ⟨fun h => ?_, fun h => ?_, fun h _ => ?_⟩
    · rw [hover (by rw [ht.x]; exact h)]
      rfl
    · have hbound := ht.good.bound
      rw [ht.width, ht.height] at hbound
      exact absurd hbound (Nat.not_le.mpr h)
    · have hle : d.x + count ≤ u32Max := by
        rw [ht.x]
        exact Nat.not_lt.mp h
      rw [hfits hle]
      refine ⟨_, rfl, ⟨ht.good.cells, ht.good.bound, ht.good.width, ht.good.height, hle, ht.good.y⟩, ?_, ht.y, ht.width,
        ht.height⟩
      simp only [ht.x]
      rfl
  · obtain ⟨hrefused, hmade⟩ := Decoder.sixel_drawn ht.good hbits hcount
    rw [ht.x, ht.y, ht.width, ht.height] at hrefused hmade
    rw [if_neg hbits]
    refine ⟨False.elim, fun hover => ?_, fun _ hbound => ?_⟩
    · rw [hrefused hover]
      rfl
    · obtain ⟨d', hsixel, hgood, hwidth, hheight, hx, hy⟩ := hmade hbound
      rw [hsixel]
      exact ⟨d', rfl, hgood, hx, hy, hwidth, hheight⟩

theorem draws_cr (left : Option ℕ × ℕ) : Draws done .cr left (some (some ({ d with x := 0 }, left))) where
  leaves := False.elim
  refused h := by
    have hbound := ht.good.bound
    rw [ht.width, ht.height] at hbound
    exact absurd hbound (Nat.not_le.mpr h)
  kept _ _ := ⟨_, rfl, ⟨ht.good.cells, ht.good.bound, ht.good.width, ht.good.height, Nat.zero_le _, ht.good.y⟩,
    rfl, ht.y,
    ht.width, ht.height⟩

theorem draws_lf (left : Option ℕ × ℕ) :
    Draws done .lf left ((addU32 d.y 6).map fun y => some ({ d with x := 0, y := y }, left)) where
  leaves h := by
    rw [ht.y, addU32_none h]
    rfl
  refused h := by
    have hbound := ht.good.bound
    rw [ht.width, ht.height] at hbound
    exact absurd hbound (Nat.not_le.mpr h)
  kept h _ := by
    have hle : d.y + 6 ≤ u32Max := by
      rw [ht.y]
      exact Nat.not_lt.mp h
    rw [addU32_eq hle]
    refine ⟨_, rfl, ⟨ht.good.cells, ht.good.bound, ht.good.width, ht.good.height, Nat.zero_le _, hle⟩, rfl, ?_,
      ht.width,
      ht.height⟩
    simp only [ht.y]
    rfl

variable (hlsToRgb b rest) in
theorem draws_step (hr : ∀ n ∈ repeat', 0 < n) :
    Draws done (itemOf repeat' b rest).1 (itemOf repeat' b rest).2 (d.step hlsToRgb repeat' b rest) := by
  have hother (left : Option ℕ × ℕ) : Draws done .other left (some (some (d, left))) :=
    draws_other ht left ⟨ht.good, ht.x, ht.y, ht.width, ht.height⟩
  have hcount : 0 < repeat'.getD 1 := by
    cases repeat' with
    | none => exact Nat.one_pos
    | some n => exact hr n rfl
  unfold itemOf Decoder.step
  simp only
  by_cases hraster : b = 0x22
  · simp only [if_pos hraster]
    exact draws_raster ht _ (readParams_le rest) _
  simp only [if_neg hraster]
  by_cases hcolor : b = 0x23
  · simp only [if_pos hcolor]
    obtain ⟨palette, color, hset⟩ := Decoder.setColor_spec hlsToRgb d (readParams rest).1
    rw [hset]
    exact draws_other ht _ ⟨⟨ht.good.cells, ht.good.bound, ht.good.width, ht.good.height, ht.good.x, ht.good.y⟩,
      ht.x, ht.y,
      ht.width, ht.height⟩
  simp only [if_neg hcolor]
  by_cases hrepeat : b = 0x21
  · simp only [if_pos hrepeat]
    exact hother _
  simp only [if_neg hrepeat]
  by_cases hcr : b = 0x24
  · simp only [if_pos hcr]
    exact draws_cr ht _
  simp only [if_neg hcr]
  by_cases hlf : b = 0x2D
  · simp only [if_pos hlf]
    exact draws_lf ht _
  simp only [if_neg hlf]
  by_cases hsixel : 0x3F ≤ b ∧ b ≤ 0x7E
  · simp only [if_pos hsixel]
    have hdrawn := draws_sixel ht (b.toNat - 0x3F) (repeat'.getD 1) hcount (none, 0)
    have hzero : b.toNat - 0x3F = 0 ↔ b = 0x3F := by
      have hlow := UInt8.le_iff_toNat_le.mp hsixel.1
      rw [← UInt8.toNat_inj]
      have : (0x3F : UInt8).toNat = 63 := rfl
      omega
    simp only [hzero] at hdrawn
    exact hdrawn
  · simp only [if_neg hsixel]
    exact hother _

end step

theorem itemOf_repeat {repeat' : Option ℕ} (hr : ∀ n ∈ repeat', 0 < n) (b : UInt8) (rest : List UInt8) :
    ∀ n ∈ (itemOf repeat' b rest).2.1, 0 < n := by
  have hmax : ∀ n ∈ some (max ((readParams rest).1.head?.getD 1) 1), 0 < n := by
    intro n hn
    obtain rfl := Option.some.inj hn
    omega
  unfold itemOf
  simp only
  split_ifs
  all_goals first | exact hr | exact hmax | exact nofun

/-- Some item leaves the range of `u32` before the image is too large. -/
def Strays (done its : List Item) : Prop :=
  ∃ pre item post, its = pre ++ item :: post ∧ width (pre.reverse ++ done) * height (pre.reverse ++ done) ≤ maxPixels ∧
    Leaves (pre.reverse ++ done) item

theorem size_append_le (pre done : List Item) :
    width done * height done ≤ width (pre ++ done) * height (pre ++ done) := by
  induction pre with
  | nil => exact le_rfl
  | cons item pre ih => exact Nat.le_trans ih (size_le item (pre ++ done))

theorem strays_cons (done : List Item) (item : Item) (its : List Item) : Strays done (item :: its) ↔
    (width done * height done ≤ maxPixels ∧ Leaves done item) ∨ Strays (item :: done) its := by
  constructor
  · rintro ⟨pre, leaver, post, heq, hsize, hleaves⟩
    cases pre with
    | nil =>
      obtain ⟨rfl, -⟩ := List.cons.inj heq
      exact .inl ⟨hsize, hleaves⟩
    | cons first pre =>
      obtain ⟨rfl, rfl⟩ := List.cons.inj heq
      rw [List.reverse_cons, List.append_assoc] at hsize hleaves
      exact .inr ⟨pre, leaver, post, rfl, hsize, hleaves⟩
  · rintro (⟨hsize, hleaves⟩ | ⟨pre, leaver, post, rfl, hsize, hleaves⟩)
    · exact ⟨[], item, its, rfl, hsize, hleaves⟩
    · refine ⟨item :: pre, leaver, post, rfl, ?_, ?_⟩ <;> rw [List.reverse_cons, List.append_assoc] <;> assumption

section run

variable {hlsToRgb : ℕ → ℕ → ℕ → Rgb} {d d' : Decoder} {done : List Item} {repeat' : Option ℕ} {data : List UInt8}

/-- The decoders a run comes through, from one item to the next. -/
inductive Reaches (hlsToRgb : ℕ → ℕ → ℕ → Rgb) : Decoder → Option ℕ → List UInt8 → Decoder → Prop
  | here (d : Decoder) (repeat' : Option ℕ) (data : List UInt8) : Reaches hlsToRgb d repeat' data d
  | step {d d' d'' : Decoder} {repeat' repeat'' : Option ℕ} {b : UInt8} {rest : List UInt8} {taken : ℕ} :
      d.step hlsToRgb repeat' b rest = some (some (d', repeat'', taken)) →
      Reaches hlsToRgb d' repeat'' (rest.drop taken) d'' → Reaches hlsToRgb d repeat' (b :: rest) d''

theorem tracks_step {b : UInt8} {rest : List UInt8} {left : Option ℕ × ℕ} (ht : Tracks d done)
    (hr : ∀ n ∈ repeat', 0 < n)
    (hs : d.step hlsToRgb repeat' b rest = some (some (d', left))) :
    left = (itemOf repeat' b rest).2 ∧ Tracks d' ((itemOf repeat' b rest).1 :: done) := by
  have hdraws := draws_step hlsToRgb b rest ht hr
  have hstays : ¬ Leaves done (itemOf repeat' b rest).1 := fun h => by
    rw [hdraws.leaves h] at hs
    cases hs
  have hsize := Nat.not_lt.mp fun h => by
    rw [hdraws.refused h] at hs
    cases hs
  obtain ⟨made, hmade, htracks⟩ := hdraws.kept hstays hsize
  rw [hmade] at hs
  obtain ⟨rfl, rfl⟩ := Prod.mk.inj (Option.some.inj (Option.some.inj hs))
  exact ⟨rfl, htracks⟩

theorem Reaches.good (h : Reaches hlsToRgb d repeat' data d') (ht : Tracks d done) (hr : ∀ n ∈ repeat', 0 < n) :
    d'.Good := by
  induction h generalizing done with
  | here => exact ht.good
  | step hs _ ih =>
    obtain ⟨hleft, htracks⟩ := tracks_step ht hr hs
    refine ih htracks ?_
    rw [(Prod.mk.inj hleft).1]
    exact itemOf_repeat hr _ _

theorem reaches_run (h : d.run hlsToRgb repeat' data = some (some d')) : Reaches hlsToRgb d repeat' data d' := by
  fun_induction Decoder.run hlsToRgb d repeat' data with
  | case1 d repeat' =>
    obtain rfl := Option.some.inj (Option.some.inj h)
    exact .here _ _ _
  | case2 => cases h
  | case3 => cases h
  | case4 d repeat' b rest d₁ repeat₁ taken hs ih => exact .step hs (ih h)

variable (hlsToRgb) in
theorem run_none_iff (ht : Tracks d done) (hr : ∀ n ∈ repeat', 0 < n) :
    d.run hlsToRgb repeat' data = none ↔ Strays done (items repeat' data) := by
  induction hn : data.length using Nat.strongRecOn generalizing d done repeat' data with
  | _ n ih =>
    cases data with
    | nil =>
      rw [Decoder.run, items]
      simp [Strays]
    | cons b rest =>
      have hdraws := draws_step hlsToRgb b rest ht hr
      have hbound := ht.good.bound
      rw [ht.width, ht.height] at hbound
      rw [Decoder.run, items, strays_cons]
      by_cases hleaves : Leaves done (itemOf repeat' b rest).1
      · rw [hdraws.leaves hleaves]
        simp [hbound, hleaves]
      by_cases hsize : width ((itemOf repeat' b rest).1 :: done) * height ((itemOf repeat' b rest).1 :: done) ≤ maxPixels
      · obtain ⟨made, hmade, htracks⟩ := hdraws.kept hleaves hsize
        have hlen : (rest.drop (itemOf repeat' b rest).2.2).length < n := by
          rw [← hn, List.length_drop, List.length_cons]
          omega
        rw [hmade]
        simp only [hleaves, and_false, false_or]
        exact ih _ hlen htracks (itemOf_repeat hr b rest) rfl
      · rw [hdraws.refused (Nat.not_le.mp hsize)]
        simp only [hleaves, and_false, false_or, reduceCtorEq, false_iff]
        rintro ⟨pre, item, post, -, hpre, -⟩
        exact hsize (Nat.le_trans (size_append_le _ _) hpre)

end run

theorem length_pixel (d : Decoder) (index : ℕ) : (d.pixel index).length = 4 := by
  unfold Decoder.pixel
  split_ifs <;> rfl

theorem finish_spec {d : Decoder} (hd : d.Good) : ∃ result, d.finish = some result ∧ ∀ image, result = some image →
    image.pixels.length = 4 * image.width * image.height ∧ image.width * image.height ≤ maxPixels := by
  have hpixels {w h : ℕ} (hw : w ≤ d.width) (hh : h ≤ d.height) : ∃ rows, ((List.range h).mapM fun y =>
      (List.range w).mapM fun x => (d.canvas[y * d.width + x]?).map d.pixel) = some rows ∧ rows.length = h ∧
        ∀ row ∈ rows, row.length = w ∧ ∀ pixel ∈ row, pixel.length = 4 := by
    have hpixel (y : ℕ) (hy : y < h) (x : ℕ) (hx : x < w) :
        ∃ pixel, (d.canvas[y * d.width + x]?).map d.pixel = some pixel ∧ pixel.length = 4 := by
      have hrow : (y + 1) * d.width ≤ d.height * d.width := Nat.mul_le_mul_right _ (by omega)
      rw [Nat.succ_mul, Nat.mul_comm d.height, ← hd.cells] at hrow
      have hin : y * d.width + x < d.canvas.length := by omega
      rw [List.getElem?_eq_getElem hin]
      exact ⟨_, rfl, length_pixel d _⟩
    have hrow (y : ℕ) (hy : y < h) : ∃ row, ((List.range w).mapM fun x => (d.canvas[y * d.width + x]?).map d.pixel) =
        some row ∧ row.length = w ∧ ∀ pixel ∈ row, pixel.length = 4 := by
      obtain ⟨row, hrow, hlen, hall⟩ := Slice.mapM_keeps fun x hx => hpixel y hy x (List.mem_range.mp hx)
      exact ⟨row, hrow, by rw [hlen, List.length_range], hall⟩
    obtain ⟨rows, hrows, hlen, hall⟩ := Slice.mapM_keeps fun y hy => hrow y (List.mem_range.mp hy)
    exact ⟨rows, hrows, by rw [hlen, List.length_range], hall⟩
  have hmade {w h : ℕ} (hw : w ≤ d.width) (hh : h ≤ d.height) :
      ∃ result, (if w = 0 ∨ h = 0 then some none else ((List.range h).mapM fun y => (List.range w).mapM fun x =>
        (d.canvas[y * d.width + x]?).map d.pixel).map fun rows =>
          some (⟨w, h, (rows.map List.flatten).flatten⟩ : SixelImage)) = some result ∧ ∀ image, result = some image →
        image.pixels.length = 4 * image.width * image.height ∧ image.width * image.height ≤ maxPixels := by
    split
    · exact ⟨none, rfl, nofun⟩
    · obtain ⟨rows, hrows, hlen, hall⟩ := hpixels hw hh
      rw [hrows]
      refine ⟨_, rfl, fun image himage => ?_⟩
      obtain rfl := Option.some.inj himage
      refine ⟨?_, Nat.le_trans (Nat.mul_le_mul hw hh) hd.bound⟩
      have hrow : ∀ bytes ∈ rows.map List.flatten, bytes.length = w * 4 := by
        intro bytes hbytes
        obtain ⟨row, hmem, rfl⟩ := List.mem_map.mp hbytes
        rw [Slice.length_flatten (hall row hmem).2, (hall row hmem).1]
      rw [Slice.length_flatten hrow, List.length_map, hlen, Nat.mul_comm 4, Nat.mul_comm]
  unfold Decoder.finish
  cases d.declared with
  | none => exact hmade le_rfl le_rfl
  | some size => exact hmade (Nat.min_le_right _ _) (Nat.min_le_right _ _)

/-- A body is decoded to no image or one with all its pixels, within the bound, by a canvas that always has all its cells. -/
def Sound (hlsToRgb : ℕ → ℕ → ℕ → Rgb) (body : List UInt8) : Prop :=
  (∃ result, decode hlsToRgb body = some result ∧ ∀ image, result = some image →
    image.pixels.length = 4 * image.width * image.height ∧ image.width * image.height ≤ maxPixels) ∧
  ∀ q d, body.findIdx? (· = 0x71) = some q →
    Reaches hlsToRgb (.new (transparentBackground (body.take q))) none (body.drop (q + 1)) d →
    d.canvas.length = d.width * d.height ∧ d.width * d.height ≤ maxPixels

theorem not_sound (hlsToRgb : ℕ → ℕ → ℕ → Rgb) {body : List UInt8} {q : ℕ} (hq : body.findIdx? (· = 0x71) = some q)
    (hstrays : Strays [] (items none (body.drop (q + 1)))) : ¬ Sound hlsToRgb body := by
  rintro ⟨⟨result, hresult, -⟩, -⟩
  have hnone : ∀ n ∈ (none : Option ℕ), 0 < n := nofun
  rw [decode, hq] at hresult
  simp only [(run_none_iff hlsToRgb (tracks_new _) hnone).mpr hstrays] at hresult
  cases hresult

/-- It holds unless the data leaves the range of `u32`, which nothing but blank columns and line feeds do. -/
theorem sound_iff (hlsToRgb : ℕ → ℕ → ℕ → Rgb) (body : List UInt8) :
    Sound hlsToRgb body ↔ ∀ q, body.findIdx? (· = 0x71) = some q → ¬ Strays [] (items none (body.drop (q + 1))) := by
  have hstart (q : ℕ) := tracks_new (transparentBackground (body.take q))
  have hnone : ∀ n ∈ (none : Option ℕ), 0 < n := nofun
  constructor
  · exact fun hsound q hq hstrays => not_sound hlsToRgb hq hstrays hsound
  · intro h
    refine ⟨?_, fun q d hq hd => ?_⟩
    · unfold decode
      cases hq : body.findIdx? (· = 0x71) with
      | none => exact ⟨none, rfl, nofun⟩
      | some q =>
        have hrun := (run_none_iff hlsToRgb (hstart q) hnone).not.mpr (h q hq)
        obtain ⟨ended, hended⟩ := Option.ne_none_iff_exists'.mp hrun
        simp only [hended, Option.bind_some]
        cases ended with
        | none => exact ⟨none, rfl, nofun⟩
        | some d => exact finish_spec ((reaches_run hended).good (hstart q) hnone)
    · have hgood := hd.good (hstart q) hnone
      exact ⟨hgood.cells, hgood.bound⟩

theorem items_cons (repeat' : Option ℕ) (b : UInt8) (rest : List UInt8) : items repeat' (b :: rest) =
    (itemOf repeat' b rest).1 :: items (itemOf repeat' b rest).2.1 (rest.drop (itemOf repeat' b rest).2.2) := by
  rw [items]

/-- As many blank columns as a `u32` counts, and one more. -/
theorem blank_columns_overflow : ¬ ∀ hlsToRgb body, Sound hlsToRgb body := by
  intro h
  have hitems : items none [0x21, 0x34, 0x32, 0x39, 0x34, 0x39, 0x36, 0x37, 0x32, 0x39, 0x35, 0x3F, 0x3F] =
      [.other, .blank 4294967295, .blank 1] := by
    rw [items_cons]
    change Item.other :: items (some 4294967295) [0x3F, 0x3F] = _
    rw [items_cons]
    change Item.other :: .blank 4294967295 :: items none [0x3F] = _
    rw [items_cons]
    change Item.other :: .blank 4294967295 :: .blank 1 :: items none [] = _
    rw [items]
  refine not_sound (fun _ _ _ => (0, 0, 0)) (q := 0) rfl ?_
    (h _ [0x71, 0x21, 0x34, 0x32, 0x39, 0x34, 0x39, 0x36, 0x37, 0x32, 0x39, 0x35, 0x3F, 0x3F])
  change Strays [] (items none [0x21, 0x34, 0x32, 0x39, 0x34, 0x39, 0x36, 0x37, 0x32, 0x39, 0x35, 0x3F, 0x3F])
  rw [hitems]
  exact ⟨[.other, .blank 4294967295], .blank 1, [], rfl, by decide, show u32Max < 0 + 4294967295 + 1 by decide⟩

end Dekit.Term.Sixel
