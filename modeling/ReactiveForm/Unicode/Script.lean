import ReactiveForm.Unicode.CharSet

/-!
# Scripts

Each character belongs to one script, or to none.  The table lists the stretches of characters of
one script from the first code point to the last: the length of the stretch, left out if it is one,
and two letters that number the scripts in the order of `scriptNames`, or `zz` for none.

A character may be used with further scripts; those are its script extensions.  They are listed by
what they add to a script, or take from it.
-/

set_option autoImplicit false
namespace ReactiveForm

/-- The scripts by their names, short ones first, in the order of the table. -/
def scriptNames : List String :=
  ["Adlm Adlam", "Aghb Caucasian_Albanian", "Ahom Ahom", "Arab Arabic", "Armi Imperial_Aramaic",
   "Armn Armenian", "Avst Avestan", "Bali Balinese", "Bamu Bamum", "Bass Bassa_Vah",
   "Batk Batak", "Beng Bengali", "Bhks Bhaiksuki", "Bopo Bopomofo", "Brah Brahmi",
   "Brai Braille", "Bugi Buginese", "Buhd Buhid", "Cakm Chakma", "Cans Canadian_Aboriginal",
   "Cari Carian", "Cham Cham", "Cher Cherokee", "Chrs Chorasmian", "Copt Coptic Qaac",
   "Cpmn Cypro_Minoan", "Cprt Cypriot", "Cyrl Cyrillic", "Deva Devanagari", "Diak Dives_Akuru",
   "Dogr Dogra", "Dsrt Deseret", "Dupl Duployan", "Egyp Egyptian_Hieroglyphs", "Elba Elbasan",
   "Elym Elymaic", "Ethi Ethiopic", "Gara Garay", "Geor Georgian", "Glag Glagolitic",
   "Gong Gunjala_Gondi", "Gonm Masaram_Gondi", "Goth Gothic", "Gran Grantha", "Grek Greek",
   "Gujr Gujarati", "Gukh Gurung_Khema", "Guru Gurmukhi", "Hang Hangul", "Hani Han",
   "Hano Hanunoo", "Hatr Hatran", "Hebr Hebrew", "Hira Hiragana", "Hluw Anatolian_Hieroglyphs",
   "Hmng Pahawh_Hmong", "Hmnp Nyiakeng_Puachue_Hmong", "Hung Old_Hungarian", "Ital Old_Italic",
   "Java Javanese", "Kali Kayah_Li", "Kana Katakana", "Kawi Kawi", "Khar Kharoshthi",
   "Khmr Khmer", "Khoj Khojki", "Kits Khitan_Small_Script", "Knda Kannada", "Krai Kirat_Rai",
   "Kthi Kaithi", "Lana Tai_Tham", "Laoo Lao", "Latn Latin", "Lepc Lepcha", "Limb Limbu",
   "Lina Linear_A", "Linb Linear_B", "Lisu Lisu", "Lyci Lycian", "Lydi Lydian", "Mahj Mahajani",
   "Maka Makasar", "Mand Mandaic", "Mani Manichaean", "Marc Marchen", "Medf Medefaidrin",
   "Mend Mende_Kikakui", "Merc Meroitic_Cursive", "Mero Meroitic_Hieroglyphs", "Mlym Malayalam",
   "Modi Modi", "Mong Mongolian", "Mroo Mro", "Mtei Meetei_Mayek", "Mult Multani",
   "Mymr Myanmar", "Nagm Nag_Mundari", "Nand Nandinagari", "Narb Old_North_Arabian",
   "Nbat Nabataean", "Newa Newa", "Nkoo Nko", "Nshu Nushu", "Ogam Ogham", "Olck Ol_Chiki",
   "Onao Ol_Onal", "Orkh Old_Turkic", "Orya Oriya", "Osge Osage", "Osma Osmanya",
   "Ougr Old_Uyghur", "Palm Palmyrene", "Pauc Pau_Cin_Hau", "Perm Old_Permic", "Phag Phags_Pa",
   "Phli Inscriptional_Pahlavi", "Phlp Psalter_Pahlavi", "Phnx Phoenician", "Plrd Miao",
   "Prti Inscriptional_Parthian", "Rjng Rejang", "Rohg Hanifi_Rohingya", "Runr Runic",
   "Samr Samaritan", "Sarb Old_South_Arabian", "Saur Saurashtra", "Sgnw SignWriting",
   "Shaw Shavian", "Shrd Sharada", "Sidd Siddham", "Sind Khudawadi", "Sinh Sinhala",
   "Sogd Sogdian", "Sogo Old_Sogdian", "Sora Sora_Sompeng", "Soyo Soyombo", "Sund Sundanese",
   "Sunu Sunuwar", "Sylo Syloti_Nagri", "Syrc Syriac", "Tagb Tagbanwa", "Takr Takri",
   "Tale Tai_Le", "Talu New_Tai_Lue", "Taml Tamil", "Tang Tangut", "Tavt Tai_Viet",
   "Telu Telugu", "Tfng Tifinagh", "Tglg Tagalog", "Thaa Thaana", "Thai Thai", "Tibt Tibetan",
   "Tirh Tirhuta", "Tnsa Tangsa", "Todr Todhri", "Toto Toto", "Tutg Tulu_Tigalari",
   "Ugar Ugaritic", "Vaii Vai", "Vith Vithkuqi", "Wara Warang_Citi", "Wcho Wancho",
   "Xpeo Old_Persian", "Xsux Cuneiform", "Yezi Yezidi", "Yiii Yi", "Zanb Zanabazar_Square",
   "Zinh Inherited Qaai", "Zyyy Common"]

/-- The stretches of one script. -/
def scriptRuns : List String :=
  ["65gn26cu6gn26cu47gncu15gncu5gn23cugn31cugn449cu39gn5cu5gn2an20gn112gm4bsgn3bs2zz4bsgnbs4zzbs",
   "gnbsgn3bszzbszz20bszz63bs14ay16bs133bb2gm169bbzz38af2zz50af2zz3afzz55ca8zz27ca4zz6ca11zz5ad",
   "gn6adgn14adgn3adgn32adgn10ad11gm26adgm108adgn34ad14fjzz60fj2zz3fj48ad50fu14zz59dx2zz3dx46et",
   "2zz15etzz28de2zzdezz11fj5zz34ad5zz75adgn29ad81bc4gm15bc2gn26bc4alzz8al2zz2al2zz22alzz7alzzal",
   "3zz4al2zz9al2zz2al2zz4al8zzal4zz2alzz5al2zz25al2zz3bvzz6bv4zz2bv2zz22bvzz7bvzz2bvzz2bvzz2bv",
   "2zzbvzz5bv4zz2bv2zz3bv3zzbv7zz4bvzzbv7zz17bv10zz3btzz9btzz3btzz22btzz7btzz2btzz5bt2zz10btzz",
   "3btzz3bt2zzbt15zz4bt2zz12bt7zz7btzz3edzz8ed2zz2ed2zz22edzz7edzz2edzz5ed2zz9ed2zz2ed2zz3ed7zz",
   "3ed4zz2edzz5ed2zz18ed10zz2fozz6fo3zz3fozz4fo3zz2fozzfozz2fo3zz2fo3zz3fo3zz12fo4zz5fo3zz3fozz",
   "4fo2zzfo6zzfo14zz21fo5zz13frzz3frzz23frzz16fr2zz9frzz3frzz4fr7zz2frzz3frzz2fr2zz4fr2zz10fr",
   "7zz9fr13cpzz3cpzz23cpzz10cpzz5cp2zz9cpzz3cpzz4cp7zz2cp5zz3cpzz4cp2zz10cpzz3cp12zz13dlzz3dlzz",
   "51dlzz3dlzz6dl4zz16dl2zz26dlzz3fbzz18fb3zz24fbzz9fbzzfb2zz7fb3zzfb4zz6fbzzfbzz8fb6zz10fb2zz",
   "3fb12zz58fv4zzgn28fv37zz2ctzzctzz5ctzz24ctzzctzz23ct2zz5ctzzctzz7ctzz10ct2zz4ct32zz72fwzz",
   "36fw4zz39fwzz36fwzz15fwzz7fw4gn2fw37zz160dr38bmzzbm5zzbm2zz43bmgn4bm256bw73bkzz4bk2zz7bkzzbk",
   "zz4bk2zz41bkzz4bk2zz33bkzz4bk2zz7bkzzbkzz4bk2zz15bkzz57bkzz4bk2zz67bk2zz32bk3zz26bk6zz86aw",
   "2zz6aw2zz640at29dz3zz75es3gn11es7zz22ft9zzft21by2gn9zz20ar12zz13fkzz3fkzz2fk12zz94cm2zz10cm",
   "6zz10cm6zz2dn2gndngn20dn6zz89dn7zz43dn5zz70at10zz31cwzz12cw4zz12cw4zzcw3zz12cw30fm2zz5fm11zz",
   "44fn4zz26fn6zz11fn3zz2fn32cm28aq2zz2aq63cszz29cs2zz11cs6zz10cs6zz14cs2zz46gm2zz12gm20zz77ah",
   "zz50ah64fg52ak8zz4ak56cv3zz15cv3zz3cv48ea11bb5zz43bm2zz3bm8fg8zz3gmgn13gmgn7gm4gngm6gngm3gn",
   "2gmgn5zz38cu5bsbb49cu5bs4cu5bs13cubb70cubs64gm256cu22bs2zz6bs2zz38bs2zz6bs2zz8bszzbszzbszzbs",
   "zz31bs2zz53bszz15bszz14bs2zz6bszz19bs2zz3bszz9bszz12gn2gm87gnzz11gncu2zz11gncu15gnzz13cu3zz",
   "34gn14zz33gm15zz38gnbs3gn2cu6gncu27gncu17gn41cu3gn4zz666gn22zz11gn21zz928gn256ap628gn2zz",
   "138gn96bn32cu116ay5zz7ay38bmzzbm5zzbm2zz56fs7zz2fs14zzfs23bk9zz7bkzz7bkzz7bkzz7bkzz7bkzz7bk",
   "zz7bkzz7bkzz32bb94gn34zz26bxzz89bx12zz214bx26zz21gnbxgnbx25gn9bx4gm2bw8gn4bx4gnzz86cb2zz2gm",
   "2gn3cbgn90cj2gn3cj5zz43anzz94bwzz16gn32an38gn9zzgn16cj31bwzz64gn31bw81gn47cjgn88cj168gn",
   "6592bx64gn20992bx1165gk3zz55gk9zz48cz300gd20zz96bb88ai8zz34gn102cu3gn82cu20zz15cu45fi3zz10gn",
   "6zz56ek8zz70ev8zz12ev6zz32bc46cignci36eq11zzeq29bw3zz78chzzgn10ch4zz2ch31drzz55av9zz14av2zz",
   "10av2zz4av32dr67fq24zz5fq23dp10zz6bk2zz6bk2zz6bk9zz7bkzz7bkzz43cugn9cubs4cu2gn4zz80aw46dp2zz",
   "10dp6zz11172bw12zz23bw4zz49bw8452zz366bx2zz106bx38zz7cu12zz5af5zz26cazz5cazzcazz2cazz2cazz",
   "10ca494ad2gn144ad32zz16ad16gm10gn6zz14gm2bb35gnzz19gnzz4gn4zz5adzz135ad2zzgnzz32gn26cu6gn",
   "26cu11gn10cjgn45cj2gn31bw3zz6bw2zz6bw2zz6bw2zz3bw3zz7gnzz7gn10zz5gn2zz12cyzz26cyzz19cyzz2cy",
   "zz15cy2zz14cy34zz123cy5zz3gn4zz45gn3zz9gn79bszz13gn3zzbs47zz45gngm130zz29da3zz49au15zzgm27gn",
   "4zz36cg9zz3cg27bq5zz43ej5zz30gczzgc36gh4zz14gh42zz80bf48ex30ef2zz10ef6zz36ee4zz36ee4zz40bi",
   "8zz52ab11zzab11gezz15gezz7gezz2gezz11gezz15gezz7gezz2ge3zz52fz12zz311cx9zz22cx10zz8cx24zz6cu",
   "zz42cuzz9cu69zz6ba2zzbazz44bazz2ba3zzba2zzba22aezz9ae32eh31dv8zz9dv48zz19bzzz2bz5zz5bz28en",
   "3zzen26db5zzdb64zz32dk24dj4zz20dj2zz46dj4clzz2cl5zz8clzz3clzz29cl2zz3cl4zz10cl7zz9cl7zz32eu",
   "32du32zz39df4zz12df9zz54ag3zz7ag22ep2zz8ep19el5zz8el18em7zz4em12zz7em80zz73ec55zz51cf13zz",
   "51cf7zz6cf40er8zz10er6zz38bl3zz29bl8zz2bl208zz31adzz42gjzz3gj2zz2gj16zz6ad8zz9ad33zz6ad40fd",
   "8zz42fc22zz26eg38zz28ax20zz23bj9zz78ao4zz36ao9zzao67cr10zzcr2zz25fe7zz10fe6zz53aszz18as8zz",
   "39dc9zz96eyzz20fb11zz18cnzz47cn62zz7dqzzdqzz4dqzz15dqzz11dq6zz59fa5zz10fa6zz4brzz8br2zz2br",
   "2zz22brzz7brzz2brzz5brzzgm9br2zz2br2zz3br2zzbr6zzbr5zz7br2zz7br3zz5br11zz10gbzzgb2zzgbzz38gb",
   "zz10gbzzgb2zzgbzz4gbzz10gbzz2gb8zz2gb29zz92dwzz5dw30zz72fx8zz10fx166zz54ez2zz38ez34zz69dm",
   "11zz10dm6zz13dn19zz58fl6zz10fl6zz20dr28zz27ac2zz15ac4zz23ac185zz60be100zz83gf12zzgf7bd2zzbd",
   "2zz8bdzz2bdzz30bdzz2bd2zz12bd9zz10bd70zz8dt2zz46dt2zz11dt27zz72gl8zz83ff13zz16at57ei7zz10bc",
   "86zz8ey88zz34fh14zz10fh6zz9amzz45amzz14am10zz29am3zz32dg2zz22dgzz14dg73zz7bpzz2bpzz44bp3zzbp",
   "zz2bpzz9bp8zz10bp6zz6bozz2bozz37bozz2bozz6bo7zz10bo310zz25dd7zz17ckzz41ck3zz29ck85zzcz15zz",
   "50fo13zzfo922gi102zz111gizz5gi11zz196gi2636zz99az13zz1110bh10zz3995bh5zz583cc6841zz58bu",
   "1734zz569ai7zz31dozz10do4zz2do79fyzz10fy6zz30aj2zz6aj10zz70cd10zz10cdzz7cdzz21cd5zz19cd432zz",
   "58cq198zz91dh101zz75eo4zz57eo7zz17eo64zzfpdy2bxco11zz7bx9zz6912fp470co41zzco31fp97zz115fp",
   "8701zz4cjzz7cjzz2cjzzcj287cb3cj15zzcb29zz3cb2zzcj14zz4cj8zz396dy2308zz107bg5zz13bg3zz9bg7zz",
   "10bg2zz4bg4gn3932zz253gn3zz436gn6zz23gn15zz17gn15zz46gm2zz23gm9zz116gn60zz246gn10zz39gn2zz",
   "62gn3gm17gn8gm2gn7gm30gn4gm61gn21zz70bs122zz20gn12zz20gn12zz87gn9zz25gn135zz85gnzz71gnzz2gn",
   "2zzgn2zz2gn2zz4gnzz12gnzzgnzz7gnzz65gnzz4gn2zz8gnzz7gnzz28gnzz4gnzz5gnzzgn3zz7gnzz340gn2zz",
   "292gn2zz50gn652ew15zz5ewzz15ew1104zz31cu6zz6cu213zz7bnzz17bn2zz7bnzz2bnzz5bn5zz62bb33zzbb",
   "112zz45ce3zz14ce2zz10ce4zz2ce320zz31ga17zz58gg5zzgg464zz42ds214zz43eb4zzeb480zz7bkzz4bkzz2bk",
   "zz15bkzz197di2zz16di41zz76aa4zz10aa4zz2aa785zz68gn76zz61gn194zz4adzz27adzz2adzzad2zzadzz10ad",
   "zz4adzzadzzad6zzad4zzadzzadzzadzz3adzz2adzzad2zzadzzadzzadzzadzzadzz2adzzad2zz4adzz7adzz4ad",
   "zz4adzzadzz10adzz17ad5zz3adzz5adzz17ad52zz2ad270zz44gn4zz100gn12zz15gn2zz15gnzz15gnzz37gn",
   "10zz174gn56zz26gncb2gn13zz44gn4zz9gn7zz2gn14zz6gn154zz985gn3zz17gn3zz13gn3zz218gn6zz12gn4zz",
   "gn15zz12gn4zz56gn8zz10gn6zz40gn8zz30gn2zz12gn4zz2gn14zz9gn39zz344gn8zz14gn2zz13gn3zz11gn3zz",
   "57gnzzgn4zz16gn2zz12gn4zz10gn7zz147gnzz103gn1029zz42720bx32zz4382bx2zz5774bx2zz7473bx15zz",
   "622bx2466zz542bx1506zz4939bx5zz8490bx707463zzgn30zz96gn128zz240gm196112zz"]

/-- Where belonging to a script by extension differs from belonging to it: for each script, by its
short name, the lengths of the stretches, by turns, of characters for which it does not differ and
for which it does. -/
def scriptExtensionRuns : List (String × List String) :=
  [("Adlm", ["1567 1 32 1 6670 1 3569 1"]),
   ("Aghb", ["772 1 44 1 44 1"]),
   ("Arab", ["1548 1 14 1 3 1 32 1 10 11 26 1 6622 1 3569 1 52988 2 1440 28"]),
   ("Armn", ["776 1"]),
   ("Avst", ["183 1 11640 2"]),
   ("Beng", ["700 1 1684 2 17 2 4970 1 1 1 2 2 1 1 8 1 8 1 2 1 4 1 2 3 35833 1"]),
   ("Bopo", ["711 1 1 3 13 1 11559 3 4 10 1 13 10 4 2 1 6 1 195 1 52553 2 282 5"]),
   ("Bugi", ["43471 1"]),
   ("Buhd", ["5941 2"]),
   ("Cakm", ["2534 10 1616 10"]),
   ("Cari", ["183 1 8098 1 2 1 3539 1"]),
   ("Cher", ["768 3 1 1 6 2 22 2 11 2"]),
   ("Copt", ["183 1 584 1 3 2 1 1 108 2 10913 1 54472 28"]),
   ("Cpmn", ["65792 2"]),
   ("Cprt", ["65792 3 4 45 3 9"]),
   ("Cyrl", ["700 1 67 3 1 1 1 1 1 1 2 1 5 1 371 2 6513 1 4170 1"]),
   ("Deva", ["700 1 1684 2 17 2 4970 39 1 2 1014 1 34623 10"]),
   ("Dogr", ["2404 12 40640 10"]),
   ("Dupl", ["183 1 591 2 1 1 24 2 11031 1 101987 4"]),
   ("Elba", ["183 1 589 1"]),
   ("Ethi", ["782 1"]),
   ("Gara", ["1548 1 14 1 3 1"]),
   ("Geor", ["183 1 1233 1 2929 1 3934 1 3542 1"]),
   ("Glag", ["183 1 587 1 1 1 382 1 2 1 257 1 2929 1 3934 1 3560 1 30763 1"]),
   ("Gong", ["183 1 2220 2"]),
   ("Gonm", ["2404 2"]),
   ("Goth", ["183 1 588 2 2 1 40 1"]),
   ("Gran", ["2385 2 17 2 640 14 4316 1 1 2 30 3 3 2 1014 1 62026 1 3220 2 1 1"]),
   ("Grek", ["183 1 584 2 2 1 1 1 1 1 10 1 46 1 2 1 46 1 6731 2 667 1"]),
   ("Gujr", ["2385 2 17 2 40650 10"]),
   ("Gukh", ["2405 1"]),
   ("Guru", ["2385 2 17 2 40650 10"]),
   ("Hang", ["12289 3 4 10 1 13 16 1 6 1 195 1 52553 2 282 5"]),
   ("Hani", ["183 1 12088 16 1 3 2 1 1 10 1 13 10 4 2 1 6 1 4 4 187 1 148 16 32 38 9 1 48 40 56",
     "49 15 12 51 1 88 25 10 5 96 31 29441 8 22333 2 282 5 54266 18 7902 2"]),
   ("Hano", ["5941 2"]),
   ("Hebr", ["775 2"]),
   ("Hira", ["12289 3 4 10 1 13 16 6 1 1 4 2 91 4 3 1 90 2 52552 2 282 5 10 1 45 2"]),
   ("Hung", ["8282 1 2 1 3539 1 15 1"]),
   ("Java", ["43471 1"]),
   ("Kali", ["43310 1"]),
   ("Kana", ["773 1 29 1 11485 3 4 10 1 13 16 6 1 1 4 2 91 4 3 1 90 2 52552 2 282 5 10 1 45 2"]),
   ("Khoj", ["2790 10 40256 10"]),
   ("Knda", ["2385 2 17 2 4970 1 1 2 6 1 23 1 1 1 35643 6"]),
   ("Kthi", ["2406 10 9409 1 31230 10"]),
   ("Latn", ["183 1 516 1 10 1 1 3 1 1 9 1 1 1 38 15 1 2 1 1 15 3 7 2 1 2 38 1 5 1 4 13 277 2",
     "1226 2 1960 1 3324 1 566 1 192 1 3366 1 30952 8 550 1"]),
   ("Limb", ["2405 1"]),
   ("Lina", ["65799 45"]),
   ("Linb", ["65792 3 4 45 3 9"]),
   ("Lisu", ["700 1 16 1 11580 2"]),
   ("Lyci", ["8282 1"]),
   ("Lydi", ["183 1 11641 1"]),
   ("Mahj", ["183 1 2220 12 40640 10"]),
   ("Mand", ["1600 1"]),
   ("Mani", ["1600 1"]),
   ("Mero", ["8285 1"]),
   ("Mlym", ["2385 2 17 2 4980 1 23 1 35645 3"]),
   ("Modi", ["43056 10"]),
   ("Mong", ["6146 2 1 1 2089 1 4049 2 5 4"]),
   ("Mult", ["2662 10"]),
   ("Mymr", ["43310 1"]),
   ("Nand", ["2385 1 18 2 896 10 4089 1 8 1 7 1 35637 6"]),
   ("Newa", ["2385 2 4994 1 1 2 9 1 6 1 1 1 1 1"]),
   ("Nkoo", ["1548 1 14 1 3 1 63262 2"]),
   ("Onao", ["2404 2"]),
   ("Orkh", ["8282 1 3541 1"]),
   ("Orya", ["2385 2 17 2 4980 1 23 1"]),
   ("Osge", ["769 1 2 1 6 1 76 1"]),
   ("Ougr", ["1600 1 66737 1"]),
   ("Perm", ["183 1 584 1 5 3 10 1 367 1"]),
   ("Phag", ["6146 2 1 1 2089 1 4050 1"]),
   ("Phlp", ["1600 1"]),
   ("Rohg", ["1548 1 14 1 3 1 32 1 147 1"]),
   ("Runr", ["5867 3"]),
   ("Samr", ["11825 1"]),
   ("Shaw", ["183 1"]),
   ("Shrd", ["2385 1 4997 1 1 1 2 2 2 1 9 1 2 1 35650 6 2 1"]),
   ("Sind", ["2404 2 40650 10"]),
   ("Sinh", ["2404 2 5004 1"]),
   ("Sogd", ["1600 1"]),
   ("Sunu", ["768 2 1 1 9 1 2 1 28 1 3 1"]),
   ("Sylo", ["2404 2 128 10"]),
   ("Syrc", ["771 2 2 2 1 1 24 3 7 2 1 2 730 1 14 2 2 1 32 1 10 11 26 1 6023 1 1 1"]),
   ("Tagb", ["5941 2"]),
   ("Takr", ["2404 2 40650 10"]),
   ("Tale", ["768 2 5 2 3 1 3379 10"]),
   ("Taml", ["2385 2 17 2 4980 1 35864 1 27149 1 1 1 55 2"]),
   ("Tang", ["12272 16 495 1"]),
   ("Telu", ["2385 2 17 2 4975 2 1 1 1 1 23 1"]),
   ("Tfng", ["770 1 1 1 1 4 25 1"]),
   ("Tglg", ["5941 2"]),
   ("Thaa", ["1548 1 14 2 2 1 64 10 63368 1 10 1"]),
   ("Thai", ["700 1 26 1 43 1 45 1"]),
   ("Tibt", ["12296 4"]),
   ("Tirh", ["2385 2 17 2 4975 1 12 1 15 1 35645 10"]),
   ("Todr", ["769 1 2 1 2 1 9 1 1 1 74 1"]),
   ("Toto", ["700 1"]),
   ("Tutg", ["3302 10 4098 1 1 1 35643 6 187 1"]),
   ("Yezi", ["1548 1 14 1 3 1 64 10"]),
   ("Yiii", ["12289 2 5 10 2 8 223 1 52837 5"]),
   ("Zinh", ["768 15 1 2 1 1 15 3 7 2 1 2 16 1 2 1 18 1 5 1 4 13 277 2 452 11 26 1 736 2 4989 3",
     "1 13 1 7 4 1 6 1 3 2 198 2 54 1 1 1 757 1 3897 4 107 2 53829 1 4186 1"]),
   ("Zyyy", ["183 1 516 1 10 1 1 3 1 1 9 1 1 1 154 1 663 1 14 1 3 1 32 1 803 2 1941 1 1519 3 71",
     "2 203 2 1 1 1229 1 13 1 7 4 1 6 1 3 2 1 820 1 31 1 10 1 2 1 3513 1 24 2 10 1 4 1 1",
     "1 428 16 1 3 2 1 1 10 1 13 16 6 1 1 4 4 91 2 3 1 90 2 147 16 32 38 9 1 48 40 56 49",
     "15 12 51 1 88 25 10 5 96 31 29441 8 296 10 244 1 160 1 21358 2 261 2 282 5 10 1 45",
     "2 352 3 4 45 3 9 417 27 47524 4 5820 18 7902 2"])]

/-- The stretches of one script, each with the two letters of the script. -/
def scriptStretches : List (Nat × Nat × Char × Char) :=
  pairedStretchesOf 0 0 (scriptRuns.flatMap String.toList)

/-- The two letters of the script with a number. -/
private def lettersOf (number : Nat) : Char × Char :=
  (Char.ofNat ('a'.toNat + number / 26), Char.ofNat ('a'.toNat + number % 26))

/-- **The characters of the script** with a number. -/
def CharSet.ofScript (number : Nat) : CharSet :=
  .ofSorted (scriptStretches.filterMap fun (first, last, letters) ↦
    if letters = lettersOf number then some (first, last) else none)

/-- **The characters used with the script** with a number and a short name. -/
def CharSet.ofScriptExtensions (number : Nat) (short : String) : CharSet :=
  match scriptExtensionRuns.lookup short with
  | some runs => (CharSet.ofScript number).symmetricDifference (.ofLengths (runs.flatMap numbersOf))
  | none => .ofScript number

end ReactiveForm
