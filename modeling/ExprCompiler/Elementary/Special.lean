import ExprCompiler.Elementary.Basic

/-!
# Special functions

Gamma and its logarithm, the error functions, digamma, zeta and beta on doubles. Polynomials are
given by their coefficients, lowest degree first.
-/

namespace ExprCompiler.Elementary

/-- A polynomial with the given coefficients, lowest degree first, by nested multiplication. -/
def polynomial (cs : List Float) (x : Float) : Float :=
  match cs with
  | [] => 0
  | [c] => c
  | c :: cs => c + x * polynomial cs x

/-! ## Gamma -/

private def gammaNumerator : List Float :=
  [9.99999999999999996796e-01, 4.94214826801497100753e-01, 2.07448227648435975150e-01,
   4.76367800457137231464e-02, 1.04213797561761569935e-02, 1.19135147006586384913e-03,
   1.60119522476751861407e-04]

private def gammaDenominator : List Float :=
  [1.00000000000000000320e+00, 7.14304917030273074085e-02, -2.34591795718243348568e-01,
   3.58236398605498653373e-02, 1.18139785222060435552e-02, -4.45641913851797240494e-03,
   5.39605580493303397842e-04, -2.31581873324120129819e-05]

private def stirlingSeries : List Float :=
  [8.33333333333482257126e-02, 3.47222221605458667310e-03, -2.68132617805781232825e-03,
   -2.29549961613378126380e-04, 7.87311395793093628397e-04]

/-- Two factors of gamma for large `x`, kept apart because their product may overflow early. -/
private def stirling (x : Float) : Float × Float :=
  if 200 < x then (infinity, 1)
  else
    let w := 1 / x
    let w := 1 + w * polynomial stirlingSeries w
    let root := 2.506628274631000502417
    let e := Float.exp x
    if 143.01608 < x then
      let v := power x (0.5 * x - 0.25)
      (v, root * w * (v / e))
    else (power x (x - 0.5) / e, root * w)

/-- Gamma on `(0, 10^-9)` and just below zero, from the first terms of its expansion. -/
private def gammaNearZero (z x : Float) : Float :=
  if x == 0 then infinity else z / ((1 + 0.57721566490153286060651209008240243104 * x) * x)

private def gammaOnUnit (z x : Float) : Float :=
  if x == 2 then z
  else
    let t := x - 2
    z * polynomial gammaNumerator t / polynomial gammaDenominator t

/-- Moves `x` up into `[2, 3)`, dividing on the way; `fuel` exceeds the distance. -/
private def gammaUp : Nat → Float → Float → Float
  | 0, z, x => gammaOnUnit z x
  | fuel + 1, z, x =>
    if x < 0 then
      if -1e-9 < x then gammaNearZero z x else gammaUp fuel (z / x) (x + 1)
    else if x < 2 then
      if x < 1e-9 then gammaNearZero z x else gammaUp fuel (z / x) (x + 1)
    else gammaOnUnit z x

/-- Moves `x` down below three, multiplying on the way. -/
private def gammaDown : Nat → Float → Float → Float
  | 0, z, x => gammaUp 64 z x
  | fuel + 1, z, x => if 3 ≤ x then gammaDown fuel (z * (x - 1)) (x - 1) else gammaUp 64 z x

/-- Gamma left of `-33` by reflection. -/
private def gammaReflected (x : Float) : Float :=
  let q := x.abs
  let p := q.floor
  let sign : Float := if isOddInteger p then 1 else -1
  let z := q - p
  let z := if 0.5 < z then q - (p + 1) else z
  let z := q * Float.sin (pi * z)
  if z == 0 then sign * infinity
  else
    let (a, b) := stirling q
    let d := z.abs * a * b
    sign * (if d.isInf then pi / z.abs / a / b else pi / d)

/-- The gamma function: NaN at the negative integers, signed infinities at the zeros. -/
def gamma (x : Float) : Float :=
  if x.isNaN || isNegInf x || (x < 0 && x.floor == x) then nan
  else if x.isInf then infinity
  else if x == 0 then (if Numeral.signBit x then -infinity else infinity)
  else if 33 < x.abs then
    if 0 ≤ x then let (a, b) := stirling x; a * b else gammaReflected x
  else gammaDown 64 1 x

/-! ## The logarithm of gamma -/

private def lgEven : List Float :=
  [7.72156649015328655494e-02, 6.73523010531292681824e-02, 7.38555086081402883957e-03,
   1.19270763183362067845e-03, 2.20862790713908385557e-04, 2.52144565451257326939e-05]

private def lgOdd : List Float :=
  [3.22467033424113591611e-01, 2.05808084325167332806e-02, 2.89051383673415629091e-03,
   5.10069792153511336608e-04, 1.08011567247583939954e-04, 4.48640949618915160150e-05]

private def lgMin₀ : List Float :=
  [4.83836122723810047042e-01, -3.27885410759859649565e-02, 6.10053870246291332635e-03,
   -1.40346469989232843813e-03, 3.15632070903625950361e-04]

private def lgMin₁ : List Float :=
  [-1.47587722994593911752e-01, 1.79706750811820387126e-02, -3.68452016781138256760e-03,
   8.81081882437654011382e-04, -3.12754168375120860518e-04]

private def lgMin₂ : List Float :=
  [6.46249402391333854778e-02, -1.03142241298341437450e-02, 2.25964780900612472250e-03,
   -5.38595305356740546715e-04, 3.35529192635519073543e-04]

private def lgOneNum : List Float :=
  [-7.72156649015328655494e-02, 6.32827064025093366517e-01, 1.45492250137234768737e+00,
   9.77717527963372745603e-01, 2.28963728064692451092e-01, 1.33810918536787660377e-02]

private def lgOneDen : List Float :=
  [1, 2.45597793713041134822e+00, 2.12848976379893395361e+00, 7.69285150456672783825e-01,
   1.04222645593369134254e-01, 3.21709242282423911810e-03]

private def lgTwoNum : List Float :=
  [-7.72156649015328655494e-02, 2.14982415960608852501e-01, 3.25778796408930981787e-01,
   1.46350472652464452805e-01, 2.66422703033638609560e-02, 1.84028451407337715652e-03,
   3.19475326584100867617e-05]

private def lgTwoDen : List Float :=
  [1, 1.39200533467621045958e+00, 7.21935547567138069525e-01, 1.71933865632803078993e-01,
   1.86459191715652901344e-02, 7.77942496381893596434e-04, 7.32668430744625636189e-06]

private def lgSeries : List Float :=
  [8.33333333333329678849e-02, -2.77777777728775536470e-03, 7.93650558643019558500e-04,
   -5.95187557450339963135e-04, 8.36339918996282139126e-04, -1.63092934096575273989e-03]

/-- Where gamma is least on the positive axis, and the logarithm of its value there in two
parts. -/
private def lgLeast : Float := 1.46163214496836224576e+00
private def lgLeastValue : Float := -1.21486290535849611461e-01
private def lgLeastTail : Float := -3.63867699703950536541e-18

private def lgBelowTwo (y : Float) : Float :=
  let z := y * y
  let p := y * polynomial lgEven z + z * polynomial lgOdd z
  p - 0.5 * y

private def lgAtLeast (y : Float) : Float :=
  let z := y * y
  let w := z * y
  let p := z * polynomial lgMin₀ w
    - (lgLeastTail - w * (polynomial lgMin₁ w + y * polynomial lgMin₂ w))
  lgLeastValue + p

private def lgAboveOne (y : Float) : Float :=
  -0.5 * y + y * polynomial lgOneNum y / polynomial lgOneDen y

/-- `log Γ` on `(0, 2)`. -/
private def lgSmall (x : Float) : Float :=
  if x ≤ 0.9 then
    let l := -Float.log x
    if lgLeast - 1 + 0.27 ≤ x then l + lgBelowTwo (1 - x)
    else if lgLeast - 1 - 0.27 ≤ x then l + lgAtLeast (x - (lgLeast - 1))
    else l + lgAboveOne x
  else if lgLeast + 0.27 ≤ x then lgBelowTwo (2 - x)
  else if lgLeast - 0.27 ≤ x then lgAtLeast (x - lgLeast)
  else lgAboveOne (x - 1)

/-- `log Γ` on `[2, 8)`. -/
private def lgMiddle (x : Float) : Float :=
  let i := x.floor
  let y := x - i
  let l := 0.5 * y + y * polynomial lgTwoNum y / polynomial lgTwoDen y
  if i < 3 then l
  else
    let steps : List Float := [6, 5, 4, 3, 2]
    l + Float.log (steps.foldl (fun z k ↦ if k + 1 ≤ i then z * (y + k) else z) 1)

private def lgLarge (x : Float) : Float :=
  let z := 1 / x
  let y := z * z
  let w := 4.18938533204672725052e-01 + z * polynomial lgSeries y
  (x - 0.5) * (Float.log x - 1) + w

private def lgPositive (x : Float) : Float :=
  if x == 1 || x == 2 then 0
  else if x < 2 then lgSmall x
  else if x < 8 then lgMiddle x
  else if x < 2.88230376151711744e17 then lgLarge x
  else x * (Float.log x - 1)

/-- `-sin(π x)` for `0 ≤ x < 2^52`, with the argument reduced before the multiplication. -/
private def minusSinPi (x : Float) : Float :=
  if x < 0.25 then -Float.sin (pi * x)
  else if x.floor == x then -0.0
  else
    let r := remainder x 2
    let n := (r * 4).floor
    if n < 1 then -Float.sin (pi * r)
    else if n < 3 then -Float.cos (pi * (0.5 - r))
    else if n < 5 then -Float.sin (pi * (1 - r))
    else if n < 7 then Float.cos (pi * (r - 1.5))
    else -Float.sin (pi * (r - 2))

/-- The logarithm of the magnitude of gamma. -/
def logGamma (x : Float) : Float :=
  if x.isNaN || x.isInf then x
  else if x == 0 then infinity
  else if x.abs < 8.470329472543003390683225006796419620513916015625e-22 then -Float.log x.abs
  else if x < 0 then
    let q := -x
    if 4.503599627370496e15 ≤ q then infinity
    else
      let t := minusSinPi q
      if t == 0 then infinity else Float.log (pi / (t * q).abs) - lgPositive q
  else lgPositive x

/-! ## Error functions -/

private def erfSmallNum : List Float :=
  [1.28379167095512558561e-01, -3.25042107247001499370e-01, -2.84817495755985104766e-02,
   -5.77027029648944159157e-03, -2.37630166566501626084e-05]

private def erfSmallDen : List Float :=
  [1, 3.97917223959155352819e-01, 6.50222499887672944485e-02, 5.08130628187576562776e-03,
   1.32494738004321644526e-04, -3.96022827877536812320e-06]

private def erfOneNum : List Float :=
  [-2.36211856075265944077e-03, 4.14856118683748331666e-01, -3.72207876035701323847e-01,
   3.18346619901161753674e-01, -1.10894694282396677476e-01, 3.54783043256182359371e-02,
   -2.16637559486879084300e-03]

private def erfOneDen : List Float :=
  [1, 1.06420880400844228286e-01, 5.40397917702171048937e-01, 7.18286544141962662868e-02,
   1.26171219808761642112e-01, 1.36370839120290507362e-02, 1.19844998467991074170e-02]

private def erfcNearNum : List Float :=
  [-9.86494403484714822705e-03, -6.93858572707181764372e-01, -1.05586262253232909814e+01,
   -6.23753324503260060396e+01, -1.62396669462573470355e+02, -1.84605092906711035994e+02,
   -8.12874355063065934246e+01, -9.81432934416914548592e+00]

private def erfcNearDen : List Float :=
  [1, 1.96512716674392571292e+01, 1.37657754143519042600e+02, 4.34565877475229228821e+02,
   6.45387271733267880336e+02, 4.29008140027567833386e+02, 1.08635005541779435134e+02,
   6.57024977031928170135e+00, -6.04244152148580987438e-02]

private def erfcFarNum : List Float :=
  [-9.86494292470009928597e-03, -7.99283237680523006574e-01, -1.77579549177547519889e+01,
   -1.60636384855821916062e+02, -6.37566443368389627722e+02, -1.02509513161107724954e+03,
   -4.83519191608651397019e+02]

private def erfcFarDen : List Float :=
  [1, 3.03380607434824582924e+01, 3.25792512996573918826e+02, 1.53672958608443695994e+03,
   3.19985821950859553908e+03, 2.55305040643316442583e+03, 4.74528541206955367215e+02,
   -2.24409524465858183362e+01]

private def erfAtOne : Float := 8.45062911510467529297e-01

/-- `erfc x` for `5/4 ≤ x < 28`: the exponential of `-x²` is split so that the square is exact. -/
private def erfcTail (x : Float) : Float :=
  let s := 1 / (x * x)
  let q :=
    if x < 1 / 0.35 then polynomial erfcNearNum s / polynomial erfcNearDen s
    else polynomial erfcFarNum s / polynomial erfcFarDen s
  let z := Float.ofBits (x.toBits &&& 0xffffffff00000000)
  Float.exp (-z * z - 0.5625) * Float.exp ((z - x) * (z + x) + q) / x

private def erfPositive (x : Float) : Float :=
  if x < 0.84375 then
    if x < 3.7252902984e-09 then
      if x < 2.848094538889218e-306 then 0.125 * (8 * x + 1.02703333676410069053e+00 * x)
      else x + 1.28379167095512586316e-01 * x
    else
      let z := x * x
      x + x * (polynomial erfSmallNum z / polynomial erfSmallDen z)
  else if x < 1.25 then
    let s := x - 1
    erfAtOne + polynomial erfOneNum s / polynomial erfOneDen s
  else if 6 ≤ x then 1
  else 1 - erfcTail x

def erf (x : Float) : Float :=
  if x.isNaN then nan
  else if x.isInf then (if x < 0 then -1 else 1)
  else Numeral.copySign (erfPositive x.abs) x

def erfc (x : Float) : Float :=
  if x.isNaN then nan
  else if x.isInf then (if x < 0 then 2 else 0)
  else
    let q := x.abs
    if q < 0.84375 then
      if q < 1.3877787807814457e-17 then 1 - x
      else
        let z := q * q
        let y := polynomial erfSmallNum z / polynomial erfSmallDen z
        if x < 0 then 1 + (q + q * y)
        else if q < 0.25 then 1 - (q + q * y)
        else 0.5 - (q - 0.5 + q * y)
    else if q < 1.25 then
      let s := q - 1
      let r := polynomial erfOneNum s / polynomial erfOneDen s
      if x < 0 then 1 + erfAtOne + r else 1 - erfAtOne - r
    else if q < 28 then
      if x < 0 then (if 6 < q then 2 else 2 - erfcTail q) else erfcTail q
    else if x < 0 then 2 else 0

/-! ## Digamma, zeta, beta -/

/-- Moves `x` up to seven along the recurrence, gathering the reciprocals. -/
private def digammaUp : Nat → Float → Float → Float × Float
  | 0, acc, x => (acc, x)
  | fuel + 1, acc, x => if x < 7 then digammaUp fuel (acc - 1 / x) (x + 1) else (acc, x)

/-- The logarithmic derivative of gamma, by recurrence and four terms of its expansion. -/
def digamma (x : Float) : Float :=
  if x.isNaN || isPosInf x then x
  else if x.isInf then nan
  else if x == 0 then Numeral.copySign infinity (-x)
  else if x < 0 && x == x.floor then nan
  else
    let (start, x) :=
      if x < 0 then (-pi / Float.tan (pi * fractional x), 1 - x) else (0.0, x)
    let (acc, x) := digammaUp 8 start x
    let x := x - 0.5
    let xx := 1 / x
    let xx2 := xx * xx
    let xx4 := xx2 * xx2
    acc + (Float.log x + (1.0 / 24.0) * xx2 - (7.0 / 960.0) * xx4 + (31.0 / 8064.0) * xx4 * xx2
      - (127.0 / 30720.0) * xx4 * xx4)

private def zetaCoefficients : List Float :=
  [12.0, -720.0, 30240.0, -1209600.0, 47900160.0, -1.8924375803183791606e9, 7.47242496e10,
   -2.950130727918164224e12, 1.1646782814350067249e14, -4.5979787224074726105e15,
   1.8152105401943546773e17, -7.1661652561756670113e18]

private def epsilon : Float := 1.11022302462515654042363166809e-16

/-- The first terms of the series; the flag says that they suffice. -/
private def zetaTerms (x : Float) : Nat → Float → Float → Float → Float × Float × Float × Bool
  | 0, s, a, b => (s, a, b, false)
  | fuel + 1, s, a, _ =>
    let a := a + 1
    let b := power a (-x)
    let s := s + b
    if (b / s).abs < epsilon then (s, a, b, true) else zetaTerms x fuel s a b

/-- The corrections of the Euler-Maclaurin formula. -/
private def zetaTail (x w : Float) : List Float → Float → Float → Float → Float → Float
  | [], s, _, _, _ => s
  | c :: cs, s, a, b, k =>
    let a := a * (x + k)
    let b := b / w
    let t := a * b / c
    let s := s + t
    if (t / s).abs < epsilon then s
    else zetaTail x w cs s (a * (x + (k + 1))) (b / w) (k + 2)

/-- The zeta function right of one, where it is infinite; `none` left of one. -/
def zeta? (x : Float) : Option Float :=
  if x == 1 then some infinity
  else if x < 1 then none
  else
    let (s, a, b, done) := zetaTerms x 9 1 1 0
    if done then some s
    else
      let s := s + b * a / (x - 1)
      let s := s - 0.5 * b
      some (zetaTail x a zetaCoefficients s 1 b 0)

/-- The beta function of nonnegative arguments, through the logarithm of gamma. -/
def beta (a b : Float) : Float :=
  if isPosInf a || isPosInf b || (a == 0 && b == 0) || a < 0 || b < 0 || a.isNaN || b.isNaN then nan
  else if a == 0 || b == 0 then infinity
  else Float.exp (logGamma a + logGamma b - logGamma (a + b))

end ExprCompiler.Elementary
