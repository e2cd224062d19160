import Argand.RealArithmetic

/-!
# Views

A camera that looks at the space of a real coordinate and a complex value.  Its
longitude turns around the axis of real values, its latitude tilts it up or down,
both in degrees, and its zoom is the number of pixels for a unit.

## Main definitions

* `Point`, `Pixel` — places in space and on the screen.
* `View` — the camera.
* `View.project`, `View.toScreen` — where a point is seen.
* `View.rotate`, `View.zoomWheel`, `View.pinch` — moving the camera.
* `View.projectAll`, `View.toScreenAll` — projecting doubles, for which there must
  be a point and the angles must be finite.
* `ViewError` — why a view cannot be worked out.
-/

namespace Argand

/-- A place in space: a real coordinate and a complex value. -/
structure Point (α : Type) where
  x : α
  y : α
  z : α
  deriving DecidableEq, Repr

/-- A place on the screen. -/
structure Pixel (α : Type) where
  x : α
  y : α
  deriving DecidableEq, Repr

/-- A camera. -/
structure View (α : Type) where
  longitude : α
  latitude : α
  offset : Point α
  zoom : α
  deriving DecidableEq, Repr

namespace View

open RealArithmetic

variable {α : Type} [RealArithmetic α]

/-- The point as seen from the offset. -/
def relative (v : View α) (p : Point α) : Point α :=
  ⟨p.x - v.offset.x, p.y - v.offset.y, p.z - v.offset.z⟩

/-- An angle of the camera in radians. -/
def radians (angle : α) : α := angle * degree

/-- Where a point is seen, from the centre of the canvas and upwards. -/
def project (v : View α) (p : Point α) : Pixel α :=
  let q := v.relative p
  let lon := radians v.longitude
  let lat := radians v.latitude
  let x := q.x * cos lon - q.z * sin lon
  let y := q.y * cos lat - sin lat * sin lon * q.x - sin lat * cos lon * q.z
  ⟨x * v.zoom, y * v.zoom⟩

/-- Where a point is seen on a canvas of a given size, downwards from its
corner. -/
def toScreen (v : View α) (width height : α) (p : Point α) : Pixel α :=
  let flat := v.project p
  ⟨flat.x + width * half, height * half - flat.y⟩

/-- Drags the camera, half a degree for a pixel. -/
def rotate (v : View α) (dx dy : α) : View α :=
  { v with longitude := v.longitude - dx * half, latitude := v.latitude + dy * half }

/-- Sets the zoom from the zoom at the start of a pinch and the ratio of
distances. -/
def pinch (v : View α) (startZoom ratio : α) : View α := { v with zoom := startZoom * ratio }

end View

/-! ### Views of doubles -/

/-- Why a view cannot be worked out. -/
inductive ViewError
  /-- There is no point to look at. -/
  | noPoints
  /-- An angle is infinite, or a logarithm is taken of no positive number. -/
  | outsideDomain
  /-- The zoom grows beyond all doubles. -/
  | outOfRange
  deriving DecidableEq, Repr

/-- The wording of an error. -/
def ViewError.message : ViewError → String
  | .noPoints => "operands could not be broadcast together with shapes (1,0) (3,) "
  | .outsideDomain => "math domain error"
  | .outOfRange => "(34, 'Numerical result out of range')"

namespace View

/-- The view taken when none is given. -/
def standard : View Float := ⟨40, 30, ⟨0, 0, 0⟩, 100⟩

/-- Whether the camera points anywhere. -/
def hasDirection (v : View Float) : Bool :=
  !(radians v.longitude).isInf && !(radians v.latitude).isInf

/-- The images of some points, of which there must be one at least, for a camera
that points somewhere. -/
def image (v : View Float) (see : Point Float → Pixel Float) (ps : List (Point Float)) :
    Except ViewError (List (Pixel Float)) :=
  if ps.isEmpty then .error .noPoints
  else if v.hasDirection then .ok (ps.map see)
  else .error .outsideDomain

/-- Where some points are seen. -/
def projectAll (v : View Float) (ps : List (Point Float)) : Except ViewError (List (Pixel Float)) :=
  v.image v.project ps

/-- Where some points are seen on a canvas of a given size. -/
def toScreenAll (v : View Float) (width height : Float) (ps : List (Point Float)) :
    Except ViewError (List (Pixel Float)) :=
  v.image (v.toScreen width height) ps

/-- Turns the zoom wheel; the zoom changes by the thousandth part of a power of
ten for each unit. -/
def zoomWheel (v : View Float) (delta : Float) : Except ViewError (View Float) :=
  if v.zoom ≤ 0 then .error .outsideDomain
  else
    -- the zoom is multiplied by `10 ^ (-delta / 1000)`
    let order := Float.log10 v.zoom - delta * 0.001
    let zoom := Float.pow 10 order
    if zoom.isInf && order.isFinite then .error .outOfRange else .ok { v with zoom }

end View

end Argand
