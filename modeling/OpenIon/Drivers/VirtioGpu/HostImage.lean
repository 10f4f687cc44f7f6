import OpenIon.Drivers.VirtioGpu.Framebuffer

/-! # What the host shows

`flush_rect` sends the rectangle with offset 0, so the device takes the rows of the rectangle from
the upper left corner of the framebuffer. The resource of the host then has the pixels of that
corner where the rectangle is.
-/
namespace OpenIon.Drivers.VirtioGpu
open Lib.Memory
open Virtio.Gpu (GpuRect)

variable {s : Screen} {g g' : Gpu s} {x y width height bgra : UInt32}

def Screen.pixel (s : Screen) (fb : ℕ → UInt8) (row col : ℕ) : List UInt8 :=
  load fb (row * s.stride + col * 4) 4

namespace Gpu

/-- The host has the pixels of the framebuffer. -/
def Agrees (g : Gpu s) : Prop :=
  ∀ row < s.height, ∀ col < s.width, g.host row col = s.pixel g.framebuffer row col

/-- After both commands were answered the host has copied the rectangle. -/
theorem flushRect_eq_ok {rect : GpuRect} (h : (g.flushRect rect).1 = .ok ()) :
    (g.flushRect rect).2 =
      { g with host := transferToHost s.stride g.framebuffer rect 0 g.host } := by
  rcases g.flushRect_cases rect with ⟨e, herr⟩ | hcopied
  · rw [herr] at h
    cases h
  · rw [hcopied, s.stride_eq]
    rfl

end Gpu

/-- A pixel of the rectangle is the one at the same place from the corner of the framebuffer. -/
theorem transferToHost_has (s : Screen) (fb : ℕ → UInt8) {r : GpuRect} (host : Image)
    {row col : ℕ} (h : r.Has row col) :
    transferToHost s.stride fb r 0 host row col = s.pixel fb (row - r.y) (col - r.x) := by
  rw [transferToHost, if_pos h, Nat.zero_add, Screen.pixel]

theorem Screen.covers_pixel (s : Screen) {r : GpuRect} {row col i : ℕ} (hrow : row < s.height)
    (hcol : col < s.width) (hi : i < 4) :
    s.Covers r (row * s.stride + col * 4 + i) ↔ r.Has row col := by
  obtain ⟨hdiv, hmod⟩ := (s.mem_pixel_iff hcol).mp
    (⟨by omega, by omega⟩ : row * s.stride + col * 4 ≤ row * s.stride + col * 4 + i ∧ _)
  rw [Screen.Covers, hdiv, hmod]
  exact and_iff_left hrow

section

variable {fb fb' : ℕ → UInt8} {r : GpuRect} {row col : ℕ}
  (hwrites : Writes {k | s.Covers r k} (colorByte bgra) fb fb') (hrow : row < s.height)
  (hcol : col < s.width)
include hwrites hrow hcol

theorem pixel_covered (hin : r.Has row col) : s.pixel fb' row col = toLeBytes bgra := by
  refine load_eq (length_toLeBytes bgra) fun i hi => ?_
  have haligned : (row * s.stride + col * 4 + i) % 4 = i := by
    rw [length_toLeBytes] at hi
    rw [s.stride_eq, ← Nat.mul_assoc]
    omega
  rw [hwrites.inside _ ((s.covers_pixel hrow hcol hi).mpr hin), colorByte, haligned,
    List.getD_eq_getElem]

theorem pixel_not_covered (hout : ¬r.Has row col) :
    s.pixel fb' row col = s.pixel fb row col :=
  load_congr fun _ hi => hwrites.outside _ fun hk => hout ((s.covers_pixel hrow hcol hi).mp hk)

theorem pixel_eq_color_iff :
    s.pixel fb' row col = toLeBytes bgra ↔
      r.Has row col ∨ s.pixel fb row col = toLeBytes bgra := by
  by_cases hin : r.Has row col
  · simp only [pixel_covered hwrites hrow hcol hin, hin, true_or]
  · rw [pixel_not_covered hwrites hrow hcol hin, or_iff_right hin]

end

/-- On the screen, the rectangle that is sent has the pixels of the one that was requested. -/
theorem has_clippedRect_iff (s : Screen) (x y width height : UInt32) {row col : ℕ}
    (hrow : row < s.height) (hcol : col < s.width) :
    (Gpu.clippedRect s x y width height).Has row col ↔
      (requestedRect x y width height).Has row col := by
  have hendX : col < min (Gpu.saturatingAdd x width) s.width ↔ _ :=
    Gpu.lt_clip_iff x width s.width_le
  have hendY : row < min (Gpu.saturatingAdd y height) s.height ↔ _ :=
    Gpu.lt_clip_iff y height (Nat.le_trans s.height_le (by decide))
  simp only [GpuRect.Has, Gpu.clippedRect, requestedRect]
  omega

namespace Gpu

/-- In the upper left corner of the framebuffer that is as large as the clipped rectangle, every
pixel is in the rectangle or has the colour already. -/
def CornerFilled (g : Gpu s) (x y width height bgra : UInt32) : Prop :=
  ∀ row < (clippedRect s x y width height).height, ∀ col < (clippedRect s x y width height).width,
    (requestedRect x y width height).Has row col ∨
      s.pixel g.framebuffer row col = toLeBytes bgra

theorem fillRect_eq_ok (h : g.fillRect x y width height bgra = some (.ok (), g')) :
    Writes {k | s.Covers (requestedRect x y width height) k} (colorByte bgra)
        g.framebuffer g'.framebuffer ∧
      g'.host = transferToHost s.stride g'.framebuffer (clippedRect s x y width height) 0
        g.host := by
  by_cases hon : x.toNat < s.width ∧ y.toNat < s.height
  · obtain ⟨fb', hfill, hwrites⟩ := g.fillRect_on_screen width height bgra hon.1 hon.2
    rw [hfill, Option.some_inj] at h
    have hflush := flushRect_eq_ok (g := { g with framebuffer := fb' }) (congrArg Prod.fst h)
    rw [h] at hflush
    dsimp only at hflush
    rw [hflush]
    exact ⟨hwrites, rfl⟩
  · rw [g.fillRect_off_screen width height bgra (by omega)] at h
    cases h

/-- After `fill_rect` the host agrees with the framebuffer if and only if the corner that it copies
gets the colour, or had it before. -/
theorem fill_reaches_host_iff (hagree : g.Agrees)
    (h : g.fillRect x y width height bgra = some (.ok (), g')) :
    g'.Agrees ↔ g.CornerFilled x y width height bgra := by
  obtain ⟨hwrites, hhost⟩ := fillRect_eq_ok h
  constructor
  · intro hagree' row hrow col hcol
    have hrow' : y.toNat + row < s.height := by
      change row < min _ _ - y.toNat at hrow
      omega
    have hcol' : x.toNat + col < s.width := by
      change col < min _ _ - x.toNat at hcol
      omega
    rw [← pixel_eq_color_iff hwrites (by omega) (by omega)]
    have hin : (clippedRect s x y width height).Has (y.toNat + row) (x.toNat + col) :=
      ⟨⟨Nat.le_add_right _ _, Nat.add_lt_add_left hrow _⟩, Nat.le_add_right _ _,
        Nat.add_lt_add_left hcol _⟩
    have hcolor := pixel_covered hwrites hrow' hcol'
      ((has_clippedRect_iff s x y width height hrow' hcol').mp hin)
    have hshown := hagree' _ hrow' _ hcol'
    rw [hhost, transferToHost_has s _ _ hin, hcolor] at hshown
    change s.pixel _ (y.toNat + row - y.toNat) (x.toNat + col - x.toNat) = _ at hshown
    rwa [Nat.add_sub_cancel_left, Nat.add_sub_cancel_left] at hshown
  · intro hcorner row hrow col hcol
    rw [hhost]
    have hiff := has_clippedRect_iff s x y width height hrow hcol
    by_cases hin : (requestedRect x y width height).Has row col
    · have hrect := hiff.mpr hin
      rw [transferToHost_has s _ _ hrect, pixel_covered hwrites hrow hcol hin,
        pixel_eq_color_iff hwrites (by omega) (by omega)]
      exact hcorner _ (Nat.sub_lt_left_of_lt_add hrect.1.1 hrect.1.2) _
        (Nat.sub_lt_left_of_lt_add hrect.2.1 hrect.2.2)
    · rw [transferToHost, if_neg fun hrect => hin (hiff.mp hrect),
        pixel_not_covered hwrites hrow hcol hin]
      exact hagree row hrow col hcol

theorem cornerFilled_at_origin (g : Gpu s) (width height bgra : UInt32) :
    g.CornerFilled 0 0 width height bgra := by
  intro row hrow col hcol
  left
  change row < min _ s.height - 0 at hrow
  change col < min _ s.width - 0 at hcol
  apply (has_clippedRect_iff s 0 0 width height (by omega) (by omega)).mp
  exact ⟨⟨Nat.zero_le _, Nat.lt_add_left _ hrow⟩, Nat.zero_le _, Nat.lt_add_left _ hcol⟩

/-- Flushing the whole screen brings the host up to date. -/
theorem flush_agrees (h : g.flush.1 = .ok ()) : g.flush.2.Agrees := by
  unfold flush at h ⊢
  rw [flushRect_eq_ok h]
  intro row hrow col hcol
  have hin : s.fullRect.Has row col := by
    simp only [Screen.fullRect, GpuRect.Has]
    omega
  exact transferToHost_has s _ _ hin

end Gpu

/-! ## A screen of two pixels -/

theorem two_le_maxWidth : 2 ≤ maxWidth := by decide

theorem one_le_maxHeight : 1 ≤ maxHeight := by decide

def twoPixels : Screen := ⟨2, 1, Nat.two_pos, Nat.one_pos, two_le_maxWidth, one_le_maxHeight⟩

def blackGpu : Gpu twoPixels := ⟨fun _ => 0, fun _ => .ok (), fun _ _ => [0, 0, 0, 0]⟩

theorem blackGpu_agrees : blackGpu.Agrees := fun _ _ _ _ => rfl

theorem left_pixel_shown : ∃ g', blackGpu.fillRect 0 0 1 1 0xFFFFFFFF = some (.ok (), g') ∧
    g'.Agrees := by
  obtain ⟨g', hfill⟩ : ∃ g', blackGpu.fillRect 0 0 1 1 0xFFFFFFFF = some (.ok (), g') := ⟨_, rfl⟩
  have hcorner := blackGpu.cornerFilled_at_origin 1 1 0xFFFFFFFF
  exact ⟨g', hfill, (Gpu.fill_reaches_host_iff blackGpu_agrees hfill).mpr hcorner⟩

/-- The right pixel gets the colour of the left one on the host. -/
theorem right_pixel_not_shown : ∃ g', blackGpu.Agrees ∧
    blackGpu.fillRect 1 0 1 1 0xFFFFFFFF = some (.ok (), g') ∧ ¬g'.Agrees := by
  refine ⟨_, blackGpu_agrees, rfl, fun hagree => ?_⟩
  have hright := hagree 0 (by decide) 1 (by decide)
  revert hright
  decide

end OpenIon.Drivers.VirtioGpu
