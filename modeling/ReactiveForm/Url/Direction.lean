import ReactiveForm.Unicode.CharSet

/-!
# Directions of writing

Where a domain name has characters that are written from right to left, each of its labels must be
of one direction, so that no two labels can look the same as one of another order.

The table lists the stretches of characters of one direction from the first code point to the last:
the length of the stretch, left out if it is one, and a letter for the direction.  It speaks only of
characters that may occur in a domain name; others are counted with those before them.
-/

set_option autoImplicit false
namespace ReactiveForm

/-- **The direction of a character.** -/
inductive Direction where
  | rightward
  | leftward
  /-- A digit of those that are written to the right within leftward text. -/
  | leftwardNumber
  /-- Any other digit. -/
  | number
  /-- A mark, which goes with what it stands on. -/
  | mark
  | neutral
deriving DecidableEq, Repr

namespace Direction

/-- The stretches of one direction: `l` for characters written from left to right, `r` for those
written from right to left, `a` and `e` for digits, `m` for marks and `n` for neutral ones. -/
def directionRuns : List String :=
  ["33l15n11e38n26l58nl10n23ln31ln449l2n7l14n2l14n5l9nl17n112m4l2n17ln110ln140l7m256l7n45mrmr2mr2m",
   "r9m54r2nr2nrnr2n11m48r21m10an2a3rm101r8mn6m2r2mn4m2r10e23rm30r29m89r11m58r9m2r4n3rm24r4mr9mr3m",
   "r7m41r5m57r9m42r57m55lmlm4l8m4lm3l7m10l2m29lm58lm4l6m6lm20l4m12l2n7ln2l5m57l2m3l24m23l2m3lm11l",
   "2m57lm4l8m4l3m18l4m11l8nl8m58lm2lml6m6l10m11l4m28lm61lm12l3m35l13nm3lm55lml3m5l18m10l4m18l7n2l",
   "m58lm15l9m13l4m26l2m57l2m4l5m7lm20l4m27lm72l5m3l6m89lm2l11mn7l8m98lm2l9m11l8m72l2m27lmlmlm4n51",
   "l14ml5ml2m5l49m8lm102l4ml6ml2m2l2m25l2m4l3m16l4m13lm2l2m6lm15lm703l3m48l16n96ln666l5n114l3m29l",
   "2m30l14m18l14m55l7m8lm2l11m7lnl3m16l32n117l2m34lm118l3m4l2m9lm6l7m6n152l34n23l2m2l3m56lml9mlm2",
   "l8m6l13m48l84m48lml5mlm5lm40l9m12l2m32l4m2l2ml3m56lml2m3lml3m58l8m2l5m149l3ml13ml7m4lm6lm3l2m1",
   "98l64m524l136n12l48n52m3nl7n5l18nl4n3l4n8l2n4l14n60l428n69l26nl790nl339n256l768n229l6n4l3m7l7n",
   "127lm96l32m159nl83n270l4n3l25n9l4m2ln5l2n5l4n88l4m3ln90ln196l48n140l2n6978l64n22160l64n317l3n9",
   "5l4mn10m2n30l2m80l2m14l34n102ln121lm3lm4lm25l2ml4n4m8l8n52l12n68l10m18l18m13lm38l8m25l11m46l3m",
   "48lm2l4m2l2m39lm67l6m2l2m2l11m3lm8lm47lm51lml3m2l2m5l2mlm42l2m8l11m105l6n117lm2lm4l3m20269lrm1",
   "64r16n363r18n64r2n54r40n13r35n17m64n238r7n122l32n257ln62l77n3l64n45l131m96lm31e118l10m1152l287",
   "rn225r15m40r8m165r6m78r7n484r12m16a41r5m242r32a43r2m35r42n6m70r11m49r4m122rlm54l15m11l20n10lm2",
   "l2m10l3m49l4m2l2m7l14m48l3m36l5ml9m61lm12l2m52l9m10l4m2lm95l3m2lml2m6lm2l63m95lm3l13m16l2m57l2",
   "m3lm37l26m59l7m12lmlmlm14l31m56l8m2l3mlm23lm84l6mlm4l2ml2m238l6m4l2ml2m27l36m51l8m2lml2m31l32n",
   "43lmlm2l6mlm101l3m2l4ml9m255l9ml2m256l2mlm4lm144l8m4lm32l6m2l2m40l6m2l4m8l9ml6m2l3m46l13ml2m19",
   "8lml3mlm201l14m84l23ml7ml2ml75m49l21ml9m64l3m2lmlm347l2m11l2m52l8m2lmlm23l86m37l42n5185lm6l25m",
   "11454l12m3l3m2496l5m59l7m1048lm63l4m79lnl12m19629l2m3937l768n80m535l3m17l8m2l7m30l4m59l89n3m12",
   "3n64l96n891ln57ln57ln57ln57ln572l55m4l50m8lm14lm22l1125m256l48m95l113m48l7m375l18m44l4m15l465n",
   "28l4m254l2m243lm2lm7l2m5l9m258l208r48m68r7m1445r608n29l3n61l57n122l3488n983040l"]

/-- The stretches: first and last code point, and letter. -/
def stretches : List (Nat × Nat × Char) := stretchesOf 0 0 (directionRuns.flatMap String.toList)

/-- **The direction of a character.** -/
def ofChar (c : Char) : Direction :=
  match (stretches.find? fun s ↦ c.toNat ≤ s.2.1).map (·.2.2) with
  | some 'r' => .leftward
  | some 'a' => .leftwardNumber
  | some 'e' => .number
  | some 'm' => .mark
  | some 'n' => .neutral
  | _ => .rightward

end Direction

/-! ## Labels -/

/-- Whether a direction is found in leftward text only. -/
def Direction.isLeftward (d : Direction) : Bool := d = .leftward || d = .leftwardNumber

/-- **Whether a label has one direction**, given those of its characters: it begins with a letter,
ends with a letter or a digit, apart from marks, and has nothing of the other direction; a leftward
one has digits of one kind. -/
def isOneDirection (ds : List Direction) : Bool :=
  match ds, ds.reverse.dropWhile (· = .mark) with
  | [], _ => true
  | .rightward :: _, last :: _ =>
    ds.all (!·.isLeftward) && (last = .rightward || last = .number)
  | .leftward :: _, last :: _ =>
    ds.all (· != .rightward) && (last = .leftward || last = .number || last = .leftwardNumber) &&
      !(ds.contains .number && ds.contains .leftwardNumber)
  | _, _ => false

end ReactiveForm
