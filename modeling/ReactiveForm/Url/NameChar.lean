import ReactiveForm.Unicode.CharSet

/-!
# Characters in domain names

A domain name means the same in capitals and small letters, and in many other ways of writing a
character.  Most characters stand for themselves, and many must not occur at all; the others stand
for some that may occur, or for nothing.  What is written for basic characters matters further on,
because it may make up a number or the mark of an encoded label; one character of another alphabet
is as good as the other, so the table only says that it stands for one.

The table lists the stretches of characters of one kind from the first code point to the last: the
length of the stretch, left out if it is one, and a letter for the kind.  The texts that characters
stand for are listed in the order of these characters; several characters in a row that stand for
basic letters or digits in a row are listed together, by the first and the last.
-/

set_option autoImplicit false
namespace ReactiveForm

/-- **What a character is in a domain name.** -/
inductive NameChar where
  /-- It stands for itself. -/
  | plain
  /-- It stands for others that are not basic. -/
  | variant
  | spelled (text : List Char)
  | ignored
  | refused
deriving DecidableEq, Repr

namespace NameChar

/-- The stretches of one kind of character: `v` for those that stand for themselves, `u` for
variants, `s` for those that are spelled out, `i` for ignored and `x` for refused ones. -/
def kindRuns : List String :=
  ["33x2vxvx9vx10vxvxv3x26s4x29vx2v34x7vxvs2vivx2v2sxu2vx2sv3sv23uv7u33vuvuvuvuvuvuvuvuvuvuvuvuvuv",
   "uvuvuvuvuvuvuvuvuvuvuvsv2suvu2vuvuvuv2suvuvuvuvsuvuvuvuvuvuvuvuvuvuvuvuvuvuvuvuvuvuvuvuvuvuvuv",
   "2uvuvuvsv2uvuv2uv3u2v4uv2uv3u3v2uv2uvuvuv2uvu2vuv2uv3uvuv2u3vu7v9suvuvuvuvuvuvuvu2vuvuvuvuvuvu",
   "vuvuvu2v3suv3uvuvuvuvuvuvuvuvuvuvuvuvuvuvuvuvuvuvuvuvuvuvuvuvuvuvuvuvuvu7v2uv2u2vuv4uvuvuvuvu9",
   "7vsu2s3u2s31v6x2vu3su91v2uv2us9vi32vuvuvuvuv3x3vsu6x5uxux2uv17ux9u35v8uvuvuvuvuvuvuvuvuvuvuvuv",
   "uv3uv2uvuv2u2v51u48vuvuvuvuvuvuvuvuvuvuvuvuvuvuvuvuvu9vuvuvuvuvuvuvuvuvuvuvuvuvuvuvuvuvuvuvuvu",
   "vuvuvuvuvuvuvuv2uvuvuvuvuvuvu2vuvuvuvuvuvuvuvuvuvuvuvuvuvuvuvuvuvuvuvuvuvuvuvuvuvuvuvuvuvuvuvu",
   "vuvuvuvuvuvuvuvuvuvuvuvuvuvuvuvuvx38u2x46vu3v2x3vx55v8x27v4x6v17x22vx88v4u100vx48v2x59v2x101v1",
   "4x59v2x49v2x15vx28v2xvx11v5x32v7x75vx117v8u36vx8v2x2v2x22vx7vxv3x4v2x9v2x2v2x4v8xv4x2uxu4v2x25",
   "v2x3vx6v4x2v2x22vx7vxvuxvux2v2xvx5v4x2v2x3v3xv7x3uvxu7x17v10x3vx9vx3vx22vx7vx2vx5v2x10vx3vx3v2",
   "xv15x4v2x12v7x7vx3vx8v2x2v2x22vx7vx2vx5v2x9v2x2v2x3v7x3v4x2ux5v2x18v10x2vx6v3x3vx4v3x2vxvx2v3x",
   "2v3x3v3x12v4x5v3x3vx4v2xv6xv14x21v5x13vx3vx23vx16v2x9vx3vx4v7x2vx3vx2v2x4v2x10v7x22vx3vx23vx10",
   "vx5v2x9vx3vx4v7x2v5x3vx4v2x10vx3v12x13vx3vx51vx3vx6v4x16v2x26vx3vx18v3x24vx9vxv2x7v3xv4x6vxvx8",
   "v6x10v2x3v12x50vs7v4x29v37x2vxvx5vx24vxvx12vs10v2x5vxvx7vx10v2x2u2v32x12vu54vu4vx4vu4vu4vu4vu1",
   "2vu3v4x2vuv5u7vu17vu4vx4vu4vu4vu4vu12vu3vx15vx13v37x160v38uxu5xu2x44vu98v2i232vx4v2x7vxvx4v2x4",
   "1vx4v2x33vx4v2x7vxvx4v2x15vx57vx4v2x67v2x32v3x26v6x86v2x6u2x640vx28v3x89v7x22v9x24v9x20v12x13v",
   "x3vx2v12x52v2i40v2x10v6x10v6x11v5i10v6x89v7x43v5x70v10x31vx12v4x12v4xv3x42v2x5v11x44v4x26v6x11",
   "v3x62v2x65vx29v2x11v6x10v6x14v2x46v2x12v20x77vx166v8x60v3x15v3x51v10uv5x43u2x3u8v8x43v5x44vsus",
   "v2su8svsu6s3u3s3usv2sus3u3s2us6u4s5u13vu34vus3us26us4u64vuvuvuvuvuvuvuvuvuvuvuvuvuvuvuvuvuvuvu",
   "vuvuvuvuvuvuvuvuvuvuvuvuvuvuvuvuvuvuvuvuvuvuvuvuvuvuvuvuvuvuvuvuvuvuvuvuvuvuvuvuvuvuvuvuvuvuvu",
   "vuvuvuvuvuvuvuvuvu5vsu2vuvuvuvuvuvuvuvuvuvuvuvuvuvuvuvuvuvuvuvuvuvuvuvuvuvuvuvuvuvuvuvuvuvuvuv",
   "uvuvuvuvuvuvuvuvuvuvuvuvuvu9v8u6v2x6u2x8v8u8v8u6v2x6u2x8vxuxuxuxu8v8uvuvuvuvuvuvuvu2x48u2v3uxv",
   "6uxu3x3uxv6u3x3vu2x2v4u4x3vu4v5u2xs2x3uxv6u14xi2v2xvu5vx12v3xv8x3v2uv2u4vsvx8v3x13vu7vx5i5x6i2",
   "s2x7su15su3sx4su8s3x8vs25v14x33v17x2sv2xuv6su4sv2s2v5s2v3svsvuvsvsu2sv3su7svs5u4v5s6v48s3vu5vs",
   "2v4x156v2uv2u248v2u255v22x11v21x40s20x79s1313vu103vx2s101vu151v2x138v48u48vuv3u2vuvuvuv4uvu2vu",
   "6v2s3uvuvuvuvuvuvuvuvuvuvuvuvuvuvuvuvuvuvuvuvuvuvuvuvuvuvuvuvuvuvuvuvuvuvuvuvuvuvuvuvuvuvuvuvu",
   "vuvuvuvuvu8vuvu4vuv5x45vxv5xv2x56v7xuv14x24v9x7vx7vx7vx7vx7vx7vx7vx7vx126v34x26vx4vu83vu12x214",
   "u43xvs51vuv3u5vx86v2x2v2x2vu95vu5x43vx51ui42ux2v14u70v10x16v31sx36s4u8v16s31uv49u31s136u35s5u6",
   "6sx4sx16sx39s28813v3x55v9x348v20xuvuvuvuvuvuvuvuvuvuvuvuvuvuvuvuvuvuvuvuvuvuvu19vuvuvuvuvuvuvu",
   "vuvuvuvuvuvuvuv2u90v8x34vuvuvuvuvuvuvu3vuvuvuvuvuvuvuvuvuvuvuvuvuvuvuvuvuvuvuvuvuvuvuvuvuvuvuv",
   "uvuvuvuvu8vuvuv2uvuvuvuvu4vuvu2vuvu3vuvuvuvuvuvuvuvuvuvuv5uv5uvuvuvuvuvuvuvuv4uvuv2uvuvuvuvuvu",
   "vuvuvu20x4su2v2u51v3x10v6x56v8x70v8x12v6x116v11x30v3x78vx11v4x33vx55v9x14v2x10v2x103v24x28v10x",
   "6v2x6v2x6v9x7vx7vx44v4u9vu2v4x80u46v2x10v6x11172v12x23v4x49v8452x270u2vuvu2v10uvuvu2v2u3v68u2x",
   "106u38x7s12x5u5xuv10us13ux5uxux2ux2ux108u33v139u6x218u18v64u2v54u8v32x10u2xu3v16isu2x2sx2u7x16",
   "vx2u6s12u2v6x4su2xs2xsu4s2ux4s2xs2xs7xuxv3xuxuxuxux126u2xix2sxsx9sx10sxsxs3x26s4x29sx2s2us60u2",
   "si30u3x6u2x6u2x6u2x3u3x3ux3ux7u17x12vx26vx19vx2vx15v2x14v34x123v5x3v4x45v3x88vx13v3xv47x46v130",
   "x29v3x49v15x28v4x36v9x30v5x43v5x30vx37v4x14v42x40u118v2x10v6x36u4x36v4x40v8x52v11xv11ux15ux7ux",
   "2ux11vx15vx7vx2v3x52v12x311v9x22v10x8v24xv5ux30us11ux9u69x6v2xvx44vx2v3xv2x23vx72v8x9v48x19vx2",
   "v5x33v3x27v5x27v38x56v4x20v2x50vx2v5x8vx3vx29v2x3v4x10v7x9v7x64v32x39v4x12v9x54v3x29v2x27v5x26",
   "v7x4v12x7v80x73v55x51u13x51v7x46v8x10v6x16v22u3x29v8x2v208x31vx42vx3v2x2v16x6v8x9v33x46v8x42v2",
   "2x26v38x28v20x23v9x78v4x36v9x62vx5v13x25v7x10v6x53vx18v8x39v9x96vx20v11x18vx47v62x7vxvx4vx15vx",
   "11v6x59v5x10v6x4vx8v2x2v2x22vx7vx2vx5vx10v2x2v2x3v2xv6xv5x7v2x7v3x5v11x10vxv2xvx38vx10vxv2xvx4",
   "vx10vx2v8x2v29x92vx5v30x72v8x10v166x54v2x38v34x69v11x10v6x13v19x58v6x10v6x20v28x27v2x15v4x23v1",
   "85x60v100x32u51v12x8v2xv2x8vx2vx30vx2v2x12v9x10v70x8v2x46v2x11v27x72v8x83v13x73v7x10v86x8v88x3",
   "4v14x10v6x9vx45vx14v10x29v3x32v2x22vx14v73x7vx2vx44v3xvx2vx9v8x10v6x6vx2vx37vx2vx6v7x10v6x44v4",
   "x10v246x25v7x17vx41v3x29v85xv15x50v13x923v102x111vx5v11x196v2636x99v13x1072v16x22v10x3995v5x58",
   "3v6841x58v1734x569v7x31vx10v4x81vx10v6x30v2x6v10x70v10x10vx7vx21v5x19v432x58v198x32u59v5x25u2x",
   "25v44x75v4x57v7x17v64x5v11x7v9x7382v41x32v97x115v8701x4vx7vx2vx291v15xv29x3v2xv14x4v8x396v2308",
   "x107v5x13v3x9v7x10v2x4v4i3932x214v36s3v3x436v6x23v15x17v15x46v2x23v9x116v60x246v10x39v2x53v7u1",
   "4v8i64v6u42v21x70v122x20v12x20v12x87v9x25v135x85sx71sx2s2xs2x2s2x4sx12sxsx7sx65sx4s2x8sx7sx28s",
   "x4sx5sxs3x7sx338s2u2x25us57us57us57us57us34u2x50s652v15x5vx15v1104x31v6x6v213x7vx17v2x7vx2vx5v",
   "5x62u33xv112x45v3x14v2x10v4x2v320x31v17x58v5xv464x42v214x43v4xv192x31vx22v8x2v224x7vx4vx2vx15v",
   "x197v2x16v41x34u42v4x10v4x2v785x68v76x61v194x4ux27ux2uxu2xux10ux4uxuxu6xu4xuxuxux3ux2uxu2xuxux",
   "uxuxux2uxu2x4ux7ux4ux4uxux10ux17u5x3ux5ux17u52x2v270x44v4x100v12x15v2x15vx15vx37v11x10s5v31sv3",
   "2s26v3s35vs29v56x26v3u13x44u4x9u7x2u14x6v154x985v3x17v3x13v3x218v6x12v4xv15x12v4x56v8x10v6x40v",
   "8x30v2x12v4x2v14x9v39x344v8x14v2x13v3x11v3x57vxv4x16v2x12v4x10v7x147vx92v10sv1029x42720v32x438",
   "2v2x5774v2x7473v15x622v2466x542u1506x4939v5x8490v707718x240i196112x"]

/-- The texts of the characters that are spelled out. -/
def spelledRuns : List String :=
  ["a-z a 2 3 1 o 1⁄4 1⁄2 3⁄4 i̇ ij ij l· l· ʼn s dž dž dž lj lj lj nj nj nj dz dz",
   "dz h j r w y l s x ι ; ํา ໍາ a b d e g-p r t u w a b d e g k m o p t-v i r u v c f",
   "z aʾ ` !! 0 i 4-9 + = ( ) n 0-9 + = ( ) a e o x h k-n p s t rs c °c °f g h h h h i i l l",
   "n no p-r r r sm tel tm z z k b c e e f m o א ב ג ד i fax d d e i j 1⁄7 1⁄9 1⁄10",
   "1⁄3 2⁄3 1⁄5 2⁄5 3⁄5 4⁄5 1⁄6 5⁄6 1⁄8 3⁄8 5⁄8 7⁄8 1⁄ i ii iii iv v",
   "vi vii viii ix x xi xii l c d m i ii iii iv v vi vii viii ix x xi xii l c d m 0⁄3 1-9 10",
   "11 12 13 14 15 16 17 18 19 20 (1) (2) (3) (4) (5) (6) (7) (8) (9) (10) (11) (12) (13) (14)",
   "(15) (16) (17) (18) (19) (20) (a) (b) (c) (d) (e) (f) (g) (h) (i) (j) (k) (l) (m) (n) (o)",
   "(p) (q) (r) (s) (t) (u) (v) (w) (x) (y) (z) a-z a-z 0 == === j v . (ᄀ) (ᄂ) (ᄃ) (ᄅ)",
   "(ᄆ) (ᄇ) (ᄉ) (ᄋ) (ᄌ) (ᄎ) (ᄏ) (ᄐ) (ᄑ) (ᄒ) (가) (나) (다) (라) (마)",
   "(바) (사) (아) (자) (차) (카) (타) (파) (하) (주) (오전) (오후) (一) (二)",
   "(三) (四) (五) (六) (七) (八) (九) (十) (月) (火) (水) (木) (金) (土) (日)",
   "(株) (有) (社) (名) (特) (財) (祝) (労) (代) (呼) (学) (監) (企) (資) (協)",
   "(祭) (休) (自) (至) pte 21 22 23 24 25 26 27 28 29 30 31 32 33 34 35 36 37 38 39 40 41",
   "42 43 44 45 46 47 48 49 50 1月 2月 3月 4月 5月 6月 7月 8月 9月 10月 11月 12月 hg",
   "erg ev ltd 0点 1点 2点 3点 4点 5点 6点 7点 8点 9点 10点 11点 12点 13点 14点",
   "15点 16点 17点 18点 19点 20点 21点 22点 23点 24点 hpa da au bar ov pc dm dm2 dm3",
   "iu pa na μa ma ka kb mb gb cal kcal pf nf μf μg mg kg hz khz mhz ghz thz μl ml dl kl fm",
   "nm μm mm cm km mm2 cm2 m2 km2 mm3 cm3 m3 km3 m∕s m∕s2 pa kpa mpa gpa rad rad∕s",
   "rad∕s2 ps ns μs ms pv nv μv mv kv mv pw nw μw mw kw mw kω mω bq cc cd c∕kg db gy ha",
   "hp in kk km kt lm ln log lx mb mil mol ph ppm pr sr sv wb v∕m a∕m 1日 2日 3日 4日",
   "5日 6日 7日 8日 9日 10日 11日 12日 13日 14日 15日 16日 17日 18日 19日 20日",
   "21日 22日 23日 24日 25日 26日 27日 28日 29日 30日 31日 gal s c f q ff fi fl ffi",
   "ffl st st + , ; ! _ _ ( ) \x7b \x7d _ _ _ , ; ! ( ) \x7b \x7d & * + - = $ ! \" $ & ' ( ) * + , - . 0-9 ;",
   "= a-z _ ` a-z \x7b \x7d ~ . ゙ ゚ q a-z 0-9 a-z a-z a-z a-g i-z a-z a-z a c d g j k n-q s-z a-d",
   "f h-n p-z a-z a-z a b d-g j-q s-y a-z a b d-g i-m o s-y a-z a-z a-z a-z a-z a-z a-z a-z a-z",
   "a-z a-z a-z a-z ∇ ∇ ∇ ∇ ∇ 0-9 0-9 0-9 0-9 0-9 0, 1, 2, 3, 4, 5, 6, 7, 8, 9, (a)",
   "(b) (c) (d) (e) (f) (g) (h) (i) (j) (k) (l) (m) (n) (o) (p) (q) (r) (s) (t) (u) (v) (w) (x)",
   "(y) (z) 〔s〕 c r cd wz a-z hv mv sd ss ppv wc mc md mr dj 0-9"]

/-- The texts that are listed by one word. -/
private def textsOf (word : List Char) : List (List Char) :=
  match word with
  | [a, '-', b] =>
    (List.range (b.toNat + 1 - a.toNat)).map fun i ↦ [Char.ofNat (a.toNat + i)]
  | word => [word]

/-- The words of a text with spaces between them. -/
private def wordsOf (s : String) : List (List Char) :=
  let (current, done) := s.toList.foldr (fun c (current, done) ↦
    if c = ' ' then ([], current :: done) else (c :: current, done)) ([], [])
  current :: done

/-- The stretches: first and last code point, and letter. -/
def stretches : List (Nat × Nat × Char) := stretchesOf 0 0 (kindRuns.flatMap String.toList)

/-- **The characters that are spelled out**, by code point, with their texts. -/
def spelledTexts : List (Nat × List Char) :=
  let points := stretches.flatMap fun (first, last, letter) ↦
    if letter = 's' then (List.range (last + 1 - first)).map (first + ·) else []
  points.zip ((spelledRuns.flatMap wordsOf).flatMap textsOf)

/-- **What a character is in a domain name.** -/
def ofChar (c : Char) : NameChar :=
  match (stretches.find? fun s ↦ c.toNat ≤ s.2.1).map (·.2.2) with
  | some 'v' => .plain
  | some 'u' => .variant
  | some 's' => .spelled ((spelledTexts.lookup c.toNat).getD [])
  | some 'i' => .ignored
  | _ => .refused

end NameChar

end ReactiveForm
