/-
Exponential and logarithm near zero.

`expm1 x` is `e^x - 1` and `log1p x` is the logarithm of `1 + x`, both without the digits that
the plain difference and sum would lose.  Either takes its argument apart into a multiple of the
logarithm of two and a small rest, meets the rest with a polynomial, and puts the parts together
again in the order that loses least.
-/

namespace BareBones.Arithmetic

/-- The logarithm of two, cut so that small multiples of it are exact. -/
def ln2High : Float := 6.93147180369123816490e-01

/-- What `ln2High` leaves of the logarithm of two. -/
def ln2Low : Float := 1.90821492927058770002e-10

/-- One over the logarithm of two. -/
def log2e : Float := 1.44269504088896338700

/-- A double from the upper half of its bits. -/
def ofHigh (high : UInt64) : Float :=
  Float.ofBits (high <<< 32)

/-- Two to the power `k`, for the powers that doubles have. -/
def twoTo (k : Int) : Float :=
  Float.ofBits ((UInt64.ofNat (k + 1023).toNat) <<< 52)

/-- The core of `expm1`: the correction to `x` for a small `x`, as `hxs`, `e` with
`e^x - 1 = x - (x * e - hxs)`. -/
def expm1Core (x : Float) : Float × Float :=
  let hfx := 0.5 * x
  let hxs := x * hfx
  let r1 := 1.0 + hxs * (-3.33333333333331316428e-02)
  let h2 := hxs * hxs
  let r2 := 1.58730158725481460165e-03 + hxs * (-7.93650757867487942473e-05)
  let h4 := h2 * h2
  let r3 := 4.00821782732936239552e-06 + hxs * (-2.01099218183624371326e-07)
  let r := r1 + h2 * r2 + h4 * r3
  let t := 3.0 - r * hfx
  (hxs, hxs * ((r - t) / (6.0 - x * t)))

/-- Puts `e^x - 1` together for an argument that is `k` times the logarithm of two more than `x`,
where `c` is what `x` was rounded by. -/
def expm1Scaled (x c : Float) (k : Int) : Float :=
  let (hxs, e) := expm1Core x
  if k == 0 then x - (x * e - hxs)
  else
    let e := (x * (e - c) - c) - hxs
    if k == -1 then 0.5 * (x - e) - 0.5
    else if k == 1 then
      if x < -0.25 then -2.0 * (e - (x + 0.5)) else 1.0 + 2.0 * (x - e)
    else if k ≤ -2 || 56 < k then Float.scaleB (1.0 - (e - x)) k - 1.0
    else if k < 20 then Float.scaleB ((1.0 - twoTo (-k)) - (e - x)) k
    else Float.scaleB ((x - (e + twoTo (-k))) + 1.0) k

/-- `e^x - 1`. -/
def expm1 (x : Float) : Float :=
  let size := x.abs
  if x.isNaN then x
  else if ofHigh 0x4043687A ≤ size && x < 0.0 then -1.0
  else if 7.09782712893383973096e+02 < x then 1.0 / 0.0
  else if size < ofHigh 0x3C900000 then x
  else if size < ofHigh 0x3FD62E43 then expm1Scaled x 0.0 0
  else
    let (high, low, k) :=
      if size < ofHigh 0x3FF0A2B2 then
        if x < 0.0 then (x + ln2High, -ln2Low, -1) else (x - ln2High, ln2Low, (1 : Int))
      else
        let t := log2e * x + (if x < 0.0 then -0.5 else 0.5)
        let t := if t < 0.0 then t.ceil else t.floor
        let k : Int := if t < 0.0 then -((-t).toUInt64.toNat : Int) else t.toUInt64.toNat
        (x - t * ln2High, t * ln2Low, k)
    let r := high - low
    expm1Scaled r ((high - r) - low) k

/-- The core of `log1p`: the logarithm of `1 + f` for a small `f`, less `f` itself, with the
amount `c` of a later term, as `f`, `c` enter the last sum. -/
def log1pCore (f c : Float) (k : Float) (tiny : Bool) : Float :=
  let hfsq := 0.5 * f * f
  if tiny then
    if f == 0.0 then if k == 0.0 then 0.0 else k * ln2High + (c + k * ln2Low)
    else
      let r := hfsq * (1.0 - 0.66666666666666666 * f)
      if k == 0.0 then f - r else k * ln2High - ((r - (k * ln2Low + c)) - f)
  else
    let s := f / (2.0 + f)
    let z := s * s
    let r1 := z * 6.666666666666735130e-01
    let z2 := z * z
    let r2 := 3.999999999940941908e-01 + z * 2.857142874366239149e-01
    let z4 := z2 * z2
    let r3 := 2.222219843214978396e-01 + z * 1.818357216161805012e-01
    let z6 := z4 * z2
    let r4 := 1.531383769920937332e-01 + z * 1.479819860511658591e-01
    let r := r1 + z2 * r2 + z4 * r3 + z6 * r4
    if k == 0.0 then f - (hfsq - s * (hfsq + r))
    else k * ln2High - ((hfsq - (s * (hfsq + r) + (k * ln2Low + c))) - f)

/-- The logarithm of `1 + x`. -/
def log1p (x : Float) : Float :=
  if x.isNaN || x < -1.0 then 0.0 / 0.0
  else if x == -1.0 then -1.0 / 0.0
  else if x == 1.0 / 0.0 then x
  else if x.abs < ofHigh 0x3C900000 then x
  else if x.abs < ofHigh 0x3E200000 then x - x * x * 0.5
  else if -ofHigh 0x3FD2BEC4 < x && x < ofHigh 0x3FDA827A then log1pCore x 0.0 0.0 false
  else
    let huge := ofHigh 0x43400000 ≤ x
    let u := if huge then x else 1.0 + x
    let bits := u.toBits
    let k : Int := ((bits >>> 52).toNat : Int) - 1023
    let c :=
      if huge then 0.0
      else (if 0 < k then 1.0 - (u - x) else x - (u - 1.0)) / u
    let fraction := bits &&& 0xFFFFFFFFFFFFF
    let top := fraction >>> 32
    let upper := 0x6A09E ≤ top
    let tiny := if upper then 0xFFFFC < top else top == 0
    let u := Float.ofBits (fraction ||| (if upper then 0x3FE0000000000000 else 0x3FF0000000000000))
    log1pCore (u - 1.0) c (Float.ofInt (if upper then k + 1 else k)) tiny

end BareBones.Arithmetic
