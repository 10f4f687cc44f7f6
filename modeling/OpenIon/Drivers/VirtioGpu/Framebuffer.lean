import OpenIon.Drivers.Virtio.Init
import OpenIon.Lib.Memory
import Mathlib.Algebra.Group.Nat.Defs
import Mathlib.Tactic.SplitIfs

/-! # The framebuffer of the VirtIO GPU driver

The driver draws into a framebuffer in memory and then tells the device to copy a rectangle of it
to the resource that the host shows. Indexing a slice fails outside of it.
-/
namespace OpenIon.Drivers.Virtio.Gpu

def GpuRect.Has (r : GpuRect) (row col : ℕ) : Prop :=
  (r.y ≤ row ∧ row < r.y + r.height) ∧ r.x ≤ col ∧ col < r.x + r.width

instance GpuRect.decidableHas (r : GpuRect) (row col : ℕ) : Decidable (r.Has row col) :=
  inferInstanceAs (Decidable ((_ ∧ _) ∧ _ ∧ _))

end OpenIon.Drivers.Virtio.Gpu

namespace OpenIon.Drivers.VirtioGpu
open Lib.Memory
open Driver (DriverErr)
open Virtio.Gpu (GpuRect Command)

def maxWidth : ℕ := 1024

def maxHeight : ℕ := 768

def bytesPerPixel : ℕ := 4

def framebufferSize : ℕ := maxWidth * maxHeight * 4

/-- A size that `init_hw` accepts. -/
structure Screen where
  width : ℕ
  height : ℕ
  width_pos : 0 < width
  height_pos : 0 < height
  width_le : width ≤ maxWidth
  height_le : height ≤ maxHeight

def initSize (width height : UInt32) : Except DriverErr Screen :=
  let width := min width.toNat maxWidth
  let height := min height.toNat maxHeight
  if h : width = 0 ∨ height = 0 then .error .invalidConfig
  else .ok
    { width, height
      width_pos := Nat.pos_of_ne_zero fun hw => h (.inl hw)
      height_pos := Nat.pos_of_ne_zero fun hh => h (.inr hh)
      width_le := Nat.min_le_right _ _
      height_le := Nat.min_le_right _ _ }

namespace Screen

def framebufferLen (s : Screen) : ℕ := s.width * s.height * bytesPerPixel

def stride (s : Screen) : ℕ := s.width * bytesPerPixel % 2 ^ 32

end Screen

def Screen.fullRect (s : Screen) : GpuRect := ⟨0, 0, s.width, s.height⟩

/-- The four bytes of each pixel, by row and column. -/
abbrev Image := ℕ → ℕ → List UInt8

/-- Row `h` of the rectangle is copied from `offset + h * stride` of the backing memory. -/
def transferToHost (stride : ℕ) (backing : ℕ → UInt8) (r : GpuRect) (offset : ℕ) (host : Image) :
    Image := fun row col =>
  if r.Has row col then
    load backing (offset + (row - r.y) * stride + (col - r.x) * 4) 4
  else host row col

/-- The driver and what it sends commands to: what `send_command` returns for each command, and the
resource of the host. -/
structure Gpu (s : Screen) where
  framebuffer : ℕ → UInt8
  answer : Command → Except DriverErr Unit
  host : Image

namespace Gpu

variable {s : Screen} (g : Gpu s)

/-- What the host does for a command that it answers. -/
def perform : Command → Gpu s
  | .transferToHost2d r offset =>
    { g with host := transferToHost (s.width * 4) g.framebuffer r offset g.host }
  | _ => g

def answered (cmd : Command) (g : Gpu s) : Except DriverErr Unit × Gpu s :=
  match g.answer cmd with
  | .error e => (.error e, g)
  | .ok () => (.ok (), g.perform cmd)

def flushRect (rect : GpuRect) : Except DriverErr Unit × Gpu s :=
  Id.run (Virtio.Gpu.flushRect (fun cmd g => pure (answered cmd g)) rect g)

/-- `fb[off..off + bytes.len()].copy_from_slice(bytes)`. -/
def copyFromSlice (fb : ℕ → UInt8) (off : ℕ) (bytes : List UInt8) : Option (ℕ → UInt8) :=
  if off + bytes.length ≤ framebufferSize then some (store fb off bytes) else none

def writeFramebuffer (offset : ℕ) (data : List UInt8) : Option (Except DriverErr ℕ × Gpu s) :=
  let len := s.framebufferLen
  if offset ≥ len then some (.error .invalidConfig, g)
  else
    let n := min data.length (len - offset)
    (copyFromSlice g.framebuffer offset (data.take n)).map fun fb =>
      (.ok n, { g with framebuffer := fb })

def saturatingAdd (a b : UInt32) : ℕ := min (a.toNat + b.toNat) (2 ^ 32 - 1)

/-- The loop over the pixels of a row. -/
def fillRow (color : List UInt8) (row x endX : ℕ) (fb : ℕ → UInt8) : Option (ℕ → UInt8) :=
  (List.range' x (endX - x)).foldlM (fun fb px => copyFromSlice fb (row + px * 4) color) fb

def fillRect (x y width height bgra : UInt32) : Option (Except DriverErr Unit × Gpu s) :=
  if x.toNat ≥ s.width ∨ y.toNat ≥ s.height then some (.error .invalidConfig, g)
  else
    let endX := min (saturatingAdd x width) s.width
    let endY := min (saturatingAdd y height) s.height
    let color := toLeBytes bgra
    let stride := s.stride
    ((List.range' y.toNat (endY - y.toNat)).foldlM
        (fun fb py => fillRow color (py * stride) x.toNat endX fb) g.framebuffer).map fun fb =>
      flushRect { g with framebuffer := fb } ⟨x.toNat, y.toNat, endX - x.toNat, endY - y.toNat⟩

def flush : Except DriverErr Unit × Gpu s := g.flushRect s.fullRect

end Gpu

/-! ## The bytes of a pixel -/

variable {s : Screen} {g : Gpu s} {x y width height bgra : UInt32}

namespace Screen

theorem stride_eq (s : Screen) : s.stride = s.width * 4 := by
  have hwidth := s.width_le
  exact Nat.mod_eq_of_lt (by rw [bytesPerPixel]; unfold maxWidth at hwidth; omega)

theorem stride_pos (s : Screen) : 0 < s.stride := by
  have hwidth := s.width_pos
  rw [stride_eq]
  omega

theorem column_lt (s : Screen) (k : ℕ) : k % s.stride / 4 < s.width := by
  have hmod := Nat.mod_lt k s.stride_pos
  have hstride := s.stride_eq
  omega

theorem framebufferLen_le (s : Screen) : s.framebufferLen ≤ framebufferSize :=
  Nat.mul_le_mul_right 4 (Nat.mul_le_mul s.width_le s.height_le)

theorem initSize_ofNat (s : Screen) :
    initSize (UInt32.ofNat s.width) (UInt32.ofNat s.height) = .ok s := by
  have hwidth := s.width_le
  have hheight := s.height_le
  have hw : min (UInt32.ofNat s.width).toNat maxWidth = s.width := by
    rw [UInt32.toNat_ofNat', Nat.mod_eq_of_lt (by unfold maxWidth at hwidth; omega)]
    omega
  have hh : min (UInt32.ofNat s.height).toNat maxHeight = s.height := by
    rw [UInt32.toNat_ofNat', Nat.mod_eq_of_lt (by unfold maxHeight at hheight; omega)]
    omega
  have hpos := s.width_pos
  have hpos' := s.height_pos
  simp only [initSize, hw, hh]
  rw [dif_neg (by omega)]

/-- The byte belongs to a pixel of the rectangle that is on the screen. -/
def Covers (s : Screen) (r : GpuRect) (k : ℕ) : Prop :=
  r.Has (k / s.stride) (k % s.stride / 4) ∧ k / s.stride < s.height

/-- Pixel `(px, py)` is stored in the four bytes from `py * stride + px * 4` on. -/
theorem mem_pixel_iff (s : Screen) {px py k : ℕ} (hpx : px < s.width) :
    (py * s.stride + px * 4 ≤ k ∧ k < py * s.stride + px * 4 + 4) ↔
      k / s.stride = py ∧ k % s.stride / 4 = px := by
  have hstride := s.stride_eq
  have hpos := s.stride_pos
  have hdiv := Nat.div_add_mod k s.stride
  have hmod := Nat.mod_lt k hpos
  constructor
  · intro ⟨hle, hlt⟩
    have hrow : k / s.stride = py := by
      rw [Nat.div_eq_iff hpos]
      omega
    rw [hrow, Nat.mul_comm] at hdiv
    exact ⟨hrow, by omega⟩
  · rintro ⟨rfl, rfl⟩
    rw [Nat.mul_comm] at hdiv
    omega

theorem pixel_in_framebuffer (s : Screen) {px py : ℕ} (hpx : px < s.width) (hpy : py < s.height) :
    py * s.stride + px * 4 + 4 ≤ framebufferSize := by
  have hwidth := s.width_le
  have hheight := s.height_le
  have hrow : (py + 1) * s.stride ≤ maxHeight * (maxWidth * 4) :=
    Nat.mul_le_mul (by omega) (by rw [stride_eq]; omega)
  rw [Nat.succ_mul, stride_eq] at hrow
  rw [stride_eq]
  change _ ≤ 1024 * 768 * 4
  change _ ≤ 768 * (1024 * 4) at hrow
  omega

end Screen

def requestedRect (x y width height : UInt32) : GpuRect :=
  ⟨x.toNat, y.toNat, width.toNat, height.toNat⟩

def colorByte (bgra : UInt32) (k : ℕ) : UInt8 := (toLeBytes bgra).getD (k % 4) 0

namespace Gpu

theorem copyFromSlice_pixel (bgra : UInt32) {px py : ℕ} (hpx : px < s.width) (hpy : py < s.height)
    (fb : ℕ → UInt8) :
    ∃ fb', copyFromSlice fb (py * s.stride + px * 4) (toLeBytes bgra) = some fb' ∧
      Writes {k | k / s.stride = py ∧ k % s.stride / 4 = px} (colorByte bgra) fb fb' := by
  refine ⟨_, if_pos (s.pixel_in_framebuffer hpx hpy), ?_⟩
  refine (writes_store fun i hi => ?_).congr fun k => s.mem_pixel_iff hpx
  rw [length_toLeBytes] at hi
  have haligned : (py * s.stride + px * 4 + i) % 4 = i := by
    rw [s.stride_eq, ← Nat.mul_assoc]
    omega
  rw [colorByte, haligned, List.getD_eq_getElem]

theorem exists_fillRow (bgra : UInt32) (x : ℕ) {py endX : ℕ} (hendX : endX ≤ s.width)
    (hpy : py < s.height) (fb : ℕ → UInt8) :
    ∃ fb', fillRow (toLeBytes bgra) (py * s.stride) x endX fb = some fb' ∧
      Writes {k | k / s.stride = py ∧ x ≤ k % s.stride / 4 ∧ k % s.stride / 4 < endX}
        (colorByte bgra) fb fb' := by
  have hturn : ∀ px ∈ List.range' x (endX - x), ∀ fb,
      ∃ fb', copyFromSlice fb (py * s.stride + px * 4) (toLeBytes bgra) = some fb' ∧
        Writes {k | k / s.stride = py ∧ k % s.stride / 4 = px} (colorByte bgra) fb fb' := by
    intro px hpx fb
    rw [List.mem_range'_1] at hpx
    exact copyFromSlice_pixel bgra (by omega) hpy fb
  obtain ⟨fb', hfb', hwrites⟩ := Writes.foldlM hturn fb
  refine ⟨fb', hfb', hwrites.congr fun k => ?_⟩
  constructor
  · rintro ⟨px, hpx, hrow, rfl⟩
    rw [List.mem_range'_1] at hpx
    exact ⟨hrow, by omega, by omega⟩
  · rintro ⟨hrow, hx, hend⟩
    exact ⟨_, List.mem_range'_1.mpr ⟨hx, by omega⟩, hrow, rfl⟩

/-- The loops of `fill_rect` write the covered bytes. -/
theorem exists_fillRows (bgra : UInt32) (x y : ℕ) {endX endY : ℕ} (hendX : endX ≤ s.width)
    (hendY : endY ≤ s.height) (fb : ℕ → UInt8) :
    ∃ fb', (List.range' y (endY - y)).foldlM
        (fun fb py => fillRow (toLeBytes bgra) (py * s.stride) x endX fb) fb = some fb' ∧
      Writes {k | (y ≤ k / s.stride ∧ k / s.stride < endY) ∧
        x ≤ k % s.stride / 4 ∧ k % s.stride / 4 < endX} (colorByte bgra) fb fb' := by
  have hturn : ∀ py ∈ List.range' y (endY - y), ∀ fb,
      ∃ fb', fillRow (toLeBytes bgra) (py * s.stride) x endX fb = some fb' ∧
        Writes {k | k / s.stride = py ∧ x ≤ k % s.stride / 4 ∧ k % s.stride / 4 < endX}
          (colorByte bgra) fb fb' := by
    intro py hpy fb
    rw [List.mem_range'_1] at hpy
    exact exists_fillRow bgra x hendX (by omega) fb
  obtain ⟨fb', hfb', hwrites⟩ := Writes.foldlM hturn fb
  refine ⟨fb', hfb', hwrites.congr fun k => ?_⟩
  constructor
  · rintro ⟨py, hpy, rfl, hcols⟩
    rw [List.mem_range'_1] at hpy
    exact ⟨by omega, hcols⟩
  · rintro ⟨hrows, hcols⟩
    exact ⟨_, List.mem_range'_1.mpr ⟨hrows.1, by omega⟩, rfl, hcols⟩

/-- The host copies the rectangle if it answers the first command, whatever it does with the
second. -/
theorem flushRect_cases (g : Gpu s) (rect : GpuRect) :
    (∃ e, g.flushRect rect = (.error e, g)) ∨
      (g.flushRect rect).2 = g.perform (.transferToHost2d rect 0) := by
  unfold flushRect Virtio.Gpu.flushRect Virtio.Gpu.sendAll answered
  cases g.answer (.transferToHost2d rect 0) with
  | error e => exact .inl ⟨e, rfl⟩
  | ok u =>
    right
    unfold Virtio.Gpu.sendAll
    dsimp only [Id.run, pure, bind, perform]
    cases g.answer (.resourceFlush rect) with
    | error e => rfl
    | ok u => rfl

theorem framebuffer_flushRect (g : Gpu s) (rect : GpuRect) :
    (g.flushRect rect).2.framebuffer = g.framebuffer := by
  rcases g.flushRect_cases rect with ⟨e, herr⟩ | hcopied
  · rw [herr]
  · rw [hcopied]
    rfl

/-- The clipped end of a range: nothing wraps around. -/
theorem lt_clip_iff (a b : UInt32) {limit k : ℕ} (hlimit : limit ≤ maxWidth) :
    k < min (saturatingAdd a b) limit ↔ k < a.toNat + b.toNat ∧ k < limit := by
  unfold saturatingAdd
  unfold maxWidth at hlimit
  omega

/-- The part of the rectangle that is on the screen, as `fill_rect` sends it. -/
def clippedRect (s : Screen) (x y width height : UInt32) : GpuRect :=
  ⟨x.toNat, y.toNat, min (saturatingAdd x width) s.width - x.toNat,
    min (saturatingAdd y height) s.height - y.toNat⟩

theorem fillRect_on_screen (g : Gpu s) (width height bgra : UInt32) (hx : x.toNat < s.width)
    (hy : y.toNat < s.height) :
    ∃ fb', g.fillRect x y width height bgra = some
        (flushRect { g with framebuffer := fb' } (clippedRect s x y width height)) ∧
      Writes {k | s.Covers (requestedRect x y width height) k} (colorByte bgra)
        g.framebuffer fb' := by
  have hwidth := s.width_le
  have hheight : s.height ≤ maxWidth := Nat.le_trans s.height_le (by decide)
  have hendX : min (saturatingAdd x width) s.width ≤ s.width := Nat.min_le_right _ _
  have hendY : min (saturatingAdd y height) s.height ≤ s.height := Nat.min_le_right _ _
  obtain ⟨fb', hfb', hwrites⟩ := exists_fillRows bgra x.toNat y.toNat hendX hendY g.framebuffer
  refine ⟨fb', ?_, hwrites.congr fun k => ?_⟩
  · rw [fillRect, if_neg (by omega)]
    dsimp only
    rw [hfb', Option.map_some, clippedRect]
  · change (_ ∧ k / s.stride < min _ _) ∧ _ ∧ k % s.stride / 4 < min _ _ ↔ s.Covers _ k
    have hcol : k % s.stride / 4 < s.width := s.column_lt k
    rw [lt_clip_iff _ _ hwidth, lt_clip_iff _ _ hheight]
    simp only [Screen.Covers, GpuRect.Has, requestedRect]
    omega

theorem fillRect_off_screen (g : Gpu s) (width height bgra : UInt32)
    (h : s.width ≤ x.toNat ∨ s.height ≤ y.toNat) :
    g.fillRect x y width height bgra = some (.error .invalidConfig, g) :=
  if_pos h

theorem exists_fillRect (g : Gpu s) (x y width height bgra : UInt32) :
    ∃ result g', g.fillRect x y width height bgra = some (result, g') ∧
      Writes {k | s.Covers (requestedRect x y width height) k} (colorByte bgra)
        g.framebuffer g'.framebuffer := by
  by_cases hon : x.toNat < s.width ∧ y.toNat < s.height
  · obtain ⟨fb', hfill, hwrites⟩ := g.fillRect_on_screen width height bgra hon.1 hon.2
    have hkept := framebuffer_flushRect ({ g with framebuffer := fb' } : Gpu s)
      (clippedRect s x y width height)
    generalize flushRect ({ g with framebuffer := fb' } : Gpu s) _ = flushed at hfill hkept
    refine ⟨flushed.1, flushed.2, hfill, ?_⟩
    rw [hkept]
    exact hwrites
  · refine ⟨_, g, g.fillRect_off_screen width height bgra (by omega), fun k hk => ?_,
      fun k _ => rfl⟩
    -- no pixel of the screen is covered
    have hcol : k % s.stride / 4 < s.width := s.column_lt k
    obtain ⟨⟨⟨hy, -⟩, hx, -⟩, hrow⟩ := hk
    change y.toNat ≤ _ at hy
    change x.toNat ≤ _ at hx
    omega

theorem writes_take (fb : ℕ → UInt8) (offset : ℕ) {data : List UInt8} {n : ℕ}
    (h : n ≤ data.length) :
    Writes {k | offset ≤ k ∧ k < offset + n} (fun k => data.getD (k - offset) 0) fb
      (store fb offset (data.take n)) := by
  have hlen : (data.take n).length = n := List.length_take_of_le h
  refine (writes_store fun i hi => ?_).congr fun k => by rw [hlen]
  rw [Nat.add_sub_cancel_left, List.getElem_take, List.getD_eq_getElem]

theorem exists_writeFramebuffer (g : Gpu s) {offset : ℕ} (data : List UInt8)
    (h : offset < s.framebufferLen) :
    ∃ n g', g.writeFramebuffer offset data = some (.ok n, g') ∧
      n = min data.length (s.framebufferLen - offset) ∧ offset + n ≤ s.framebufferLen ∧
      Writes {k | offset ≤ k ∧ k < offset + n} (fun k => data.getD (k - offset) 0) g.framebuffer
        g'.framebuffer := by
  have hsize := s.framebufferLen_le
  unfold writeFramebuffer copyFromSlice
  dsimp only
  rw [if_neg (Nat.not_le.mpr h), if_pos (by rw [List.length_take]; omega), Option.map_some]
  exact ⟨_, _, rfl, rfl, by omega, writes_take _ _ (Nat.min_le_left _ _)⟩

end Gpu

/-- Filling and writing change exactly the bytes they should, whatever the device answers, and
never index outside the framebuffer. -/
theorem framebuffer_writes_exact (g : Gpu s) :
    (∀ x y width height bgra : UInt32,
      ∃ result g', g.fillRect x y width height bgra = some (result, g') ∧
        Writes {k | s.Covers (requestedRect x y width height) k} (colorByte bgra)
          g.framebuffer g'.framebuffer) ∧
      (∀ x y width height bgra : UInt32, s.width ≤ x.toNat ∨ s.height ≤ y.toNat →
        g.fillRect x y width height bgra = some (.error .invalidConfig, g)) ∧
      (∀ (offset : ℕ) (data : List UInt8), offset < s.framebufferLen →
        ∃ n g', g.writeFramebuffer offset data = some (.ok n, g') ∧
          n = min data.length (s.framebufferLen - offset) ∧ offset + n ≤ s.framebufferLen ∧
          Writes {k | offset ≤ k ∧ k < offset + n} (fun k => data.getD (k - offset) 0)
            g.framebuffer g'.framebuffer) ∧
      ∀ (offset : ℕ) (data : List UInt8), s.framebufferLen ≤ offset →
        g.writeFramebuffer offset data = some (.error .invalidConfig, g) :=
  ⟨g.exists_fillRect, fun _ _ width height bgra h => g.fillRect_off_screen width height bgra h,
    fun _ data h => g.exists_writeFramebuffer data h, fun _ _ h => if_pos h⟩

end OpenIon.Drivers.VirtioGpu
