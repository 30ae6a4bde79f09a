import MeuOS.Lib.ForLoop
import MeuOS.Lib.Int32
import MeuOS.Lib.Mem
import MeuOS.Lib.Moves

/-! The primitives that draw into the framebuffer. Addresses count from its first byte; a load or a
store that is not wholly inside it is `none`. -/
namespace MeuOS.Display

open MeuOS.Lib

/-- The mode of the active backend. Its framebuffer is allocated or mapped, and that takes less than
two gigabytes. -/
structure Mode where
  width : Nat
  height : Nat
  pitch : Nat
  wide : 4 * width ≤ pitch
  pitch_lt : pitch < 2 ^ 31
  height_lt : height < 2 ^ 31
  fits : height * pitch < 2 ^ 31

/-- The bytes of the framebuffer. -/
def Mode.size (md : Mode) : Nat := md.height * md.pitch

def pack32 (rgba : Nat) : Nat := rgba % 2 ^ 24

/-- Where a row starts, in `uint32_t`. -/
def Mode.row (md : Mode) (y : Int) : Nat := y.toNat * md.pitch % 2 ^ 32

/-- A pixel is loaded, unless its new value does not depend on it, and stored. -/
def updatePixel (md : Mode) (shade : Nat → Nat) (m : Mem) (off : Nat) : Option Mem :=
  if off + 4 ≤ md.size then some (m.write off 4 (shade (m.rd32 off))) else none

/-- What the three primitives that draw rectangles have in common: `shade` tells from its row and its
old value what a pixel becomes. -/
def drawRect (md : Mode) (m : Mem) (x y w h : Int) (shade : Int → Nat → Nat) : Option Mem :=
  if w ≤ 0 ∨ h ≤ 0 then some m
  else
    let x0 := if x < 0 then 0 else x
    let y0 := if y < 0 then 0 else y
    let x1 := wrap32 (x + w)
    let y1 := wrap32 (y + h)
    let x1 := if x1 > md.width then (md.width : Int) else x1
    let y1 := if y1 > md.height then (md.height : Int) else y1
    if x1 ≤ x0 ∨ y1 ≤ y0 then some m
    else
      forUp y0 y1
        (fun m yy =>
          let row := md.row yy
          forUp x0 x1 (fun m xx => updatePixel md (shade yy) m (row + 4 * xx.toNat)) m)
        m

def gpuFillRect (md : Mode) (m : Mem) (x y w h : Int) (rgba : Nat) : Option Mem :=
  drawRect md m x y w h fun _ _ => pack32 rgba

/-! ### Gradients -/

/-- A component of a colour. -/
def component (rgb shift : Nat) : Nat := rgb / 2 ^ shift % 256

/-- A number of type `int`, converted to `uint32_t`. -/
def uint32 (n : Int) : Nat := (n % 2 ^ 32).toNat

/-- A component between `a` and `b`, `t` of `span` steps from `a`. -/
def interpolate (a b : Nat) (t span : Int) : Int := a + (wrap32 (((b : Int) - a) * t)).tdiv span

def gradientColor (top bottom : Nat) (y h yy : Int) : Nat :=
  let span := if h > 1 then h - 1 else 1
  let t := wrap32 (yy - y)
  let t := if t < 0 then 0 else if t > span then span else t
  let r := interpolate (component top 16) (component bottom 16) t span
  let g := interpolate (component top 8) (component bottom 8) t span
  let b := interpolate (component top 0) (component bottom 0) t span
  uint32 r * 2 ^ 16 % 2 ^ 32 ||| uint32 g * 2 ^ 8 % 2 ^ 32 ||| uint32 b

def gpuGradientV (md : Mode) (m : Mem) (x y w h : Int) (top bottom : Nat) : Option Mem :=
  drawRect md m x y w h fun yy _ => gradientColor top bottom y h yy

/-! ### Blending -/

def blendComponent (s d alpha : Nat) : Nat := (s * alpha + d * (255 - alpha)) / 255

def blendPixel (rgb alpha d : Nat) : Nat :=
  blendComponent (component rgb 16) (component d 16) alpha * 2 ^ 16 |||
    blendComponent (component rgb 8) (component d 8) alpha * 2 ^ 8 |||
    blendComponent (component rgb 0) (component d 0) alpha

def gpuBlendRect (md : Mode) (m : Mem) (x y w h : Int) (rgb alpha : Nat) : Option Mem :=
  if w ≤ 0 ∨ h ≤ 0 ∨ alpha = 0 then some m
  else if 255 ≤ alpha then gpuFillRect md m x y w h rgb
  else drawRect md m x y w h fun _ => blendPixel rgb alpha

/-! ### Copying -/

/-- `dst[i] = src[i]`. -/
def copyByte (md : Mode) (m : Mem) (p : Nat × Nat) : Option Mem :=
  if p.1 < md.size ∧ p.2 < md.size then some (moveOne m p) else none

/-- `y * pitch + x * bpp_b`, in `uint32_t`. -/
def Mode.start (md : Mode) (y x : Int) : Nat := uint32 (y * md.pitch + x * 4)

def gpuCopyRect (md : Mode) (m : Mem) (sx sy dx dy w h : Int) : Option Mem :=
  if w ≤ 0 ∨ h ≤ 0 then some m
  else if sx < 0 ∨ sy < 0 ∨ dx < 0 ∨ dy < 0 then some m
  else if wrap32 (sx + w) > md.width ∨ wrap32 (sy + h) > md.height then some m
  else if wrap32 (dx + w) > md.width ∨ wrap32 (dy + h) > md.height then some m
  else
    let bytes := wrap32 (w * 4)
    if dy > sy ∨ dy = sy ∧ dx > sx then
      forDown h
        (fun m j =>
          let src := md.start (sy + j) sx
          let dst := md.start (dy + j) dx
          forDown bytes (fun m i => copyByte md m (src + i.toNat, dst + i.toNat)) m)
        m
    else
      forUp 0 h
        (fun m j =>
          let src := md.start (sy + j) sx
          let dst := md.start (dy + j) dx
          forUp 0 bytes (fun m i => copyByte md m (src + i.toNat, dst + i.toNat)) m)
        m

end MeuOS.Display
