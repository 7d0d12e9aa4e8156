import ReactiveForm.Unicode.CharSet

/-!
# General categories

Each character has a general category.  The table lists the stretches of characters of one category
from the first code point to the last: the length of the stretch, left out if it is one, and a
letter for the category, in the order of `categoryLetters`.
-/

set_option autoImplicit false
namespace ReactiveForm

/-- The categories by their short names, in the order of their letters in the table. -/
def categoryNames : List String :=
  ["Lu", "Ll", "Lt", "Lm", "Lo", "Mn", "Mc", "Me", "Nd", "Nl", "No", "Pc", "Pd", "Ps", "Pe", "Pi",
   "Pf", "Po", "Sm", "Sc", "Sk", "So", "Zs", "Zl", "Zp", "Cc", "Cf", "Cs", "Co", "Cn"]

/-- The letters of the categories in the table. -/
def categoryLetters : List Char := "ABCDEFGHIJKLMNOPQRSTUVWXYZabcd".toList

/-- The stretches of one category. -/
def categoryRuns : List String :=
  ["32ZW3RT3RNORSRM2R10I2R3S2R26ANROULU26BNSOS33ZWR4TVRUVEPSaVUVS2KUB2RUKEQ3KR23AS7A24BS8BABABAB",
   "ABABABABABABABABABABABABABABABABABABABABABABABABA2BABABABABABABABA2BABABABABABABABABABABABAB",
   "ABABABABABABABABABABAB2ABABA3B2ABAB2AB3A2B4AB2AB3A3B2AB2ABABAB2ABA2BAB2AB3ABAB2A2BEA3B4EACBA",
   "CBACBABABABABABABABA2BABABABABABABABABA2BACBAB3ABABABABABABABABABABABABABABABABABABABABABABA",
   "BABABABABABABA7B2AB2A2BAB4ABABABABA69B2E26B18D4U12D14U5D7UDUD17U112FABABDUAB2dD3BRA4d2UAR3Ad",
   "Ad2AB17Ad9A35BA2B3A3BABABABABABABABABABABABA5BABSAB2A2B51A48BABABABABABABABABABABABABABABABA",
   "BABV5F2HABABABABABABABABABABABABABABABABABABABABABABABABABABAB2ABABABABABABA2BABABABABABABAB",
   "ABABABABABABABABABABABABABABABABABABABABABABABABABABABABABABABABABABABABABABABABABd38A2dD6R",
   "41BRM2d2VTd45FMFR2FR2FRF8d27E4d4E2R11d6a3S2RT2R2V11FRa3R32ED10E21F10I4R2EF99ERE7FaV6F2D2FV4F",
   "2E10I3E2VE14RdaEF30E27F2d89E11FE14d10I33E9F2DV3RD2dF2T22E4FD9FD3FD5F2d15Rd25E3F2dRd11E5d24EU",
   "7E2a5d9F41ED24Fa32FG54EFGFE3G8F4GF2GE7F10E2F2R10IRD15EF2Gd8E2d2E2d22Ed7EdE3d4E2dFE3G4F2d2G2d",
   "2GFE8dG4d2Ed3E2F2d10I2E2T6KVTERF2d2FGd6E4d2E2d22Ed7Ed2Ed2Ed2E2dFd3G2F4d2F2d3F3dF7d4EdE7d10I",
   "2F3EFR10d2FGd9Ed3Ed22Ed7Ed2Ed5E2dFE3G5Fd2FGd2GF2dE15d2E2F2d10IRT7dE6FdF2Gd8E2d2E2d22Ed7Ed2Ed",
   "5E2dFEGFG4F2d2G2d2GF7d2FG4d2Ed3E2F2d10IVE6K10dFEd6E3d3Ed4E3d2EdEd2E3d2E3d3E3d12E4d2GF2G3d3Gd",
   "3GF2dE6dG14d10I3K6VTV5dF3GF8Ed3Ed23Ed16E2dFE3F4Gd3Fd4F7d2Fd3Ed2E2d2E2F2d10I7dR7KVEF2GR8Ed3Ed",
   "23Ed10Ed5E2dFEGF5GdF2Gd2G2F7d2G5d3Ed2E2F2d10Id2EG12d2F2G9Ed3Ed41E2FE3G4Fd3Gd3GFEV4d3EG7K3E2F",
   "2d10I9KV6EdF2Gd18E3d24Ed9EdE2d7E3dF4d3G3FdFd8G6d10I2d2GR12d48EF2E7F4dT6ED8FR10I2R37d2EdEd5Ed",
   "24EdEd10EF2E9FE2d5EdDd7Fd10I2d4E32dE3V15RVR3V2F6V10I10KVFVFVFNONO2G8Ed36E4d14FG5FR2F5E11Fd",
   "36Fd8VF6Vd2V5R4V2R37d43E2G4FG6FG2F2G2FE10I6R6E2G2F4E3FE3G2E7G3E4F13EF2G2F6GFEG10I3GF2V38AdA",
   "5dA2d43BRD3B329Ed4E2d7EdEd4E2d41Ed4E2d33Ed4E2d7EdEd4E2d15Ed57Ed4E2d67E2d3F9R20K3d16E10V6d86A",
   "2d6B2dM620EVR17EW26ENO3d75E3R3J8E7d18E3FG9d19E2FG2R9d18E2F12d13Ed3Ed2F12d52E2FG7F8GF2G11F3RD",
   "3RTEF2d10I6d10K6d6RM4R3FaF10I6d35ED53E7d5E2F34EFE5d70E10d31Ed3F4G2F3G4d2GF6G3F4dV3d2R10I30E",
   "2d5E11d44E4d26E6d10IK3d34V23E2F2GF2d2R53EGFG7FdFGF2G8F6G10F2dF10I6d10I6d7RD6R2d14FH31F2d12F",
   "20d4FG47EFG5FGF5GF2G8Ed2R10I7R10V9F9V3R2FG30EG4F2G2FG3F2E10I44EFG2F3GFG3F2G8d4R36E8G8F2G2F3d",
   "5R10I3d3E10I30E6D2R9BAB5d43A2d3A8R8d3FR13FG7F4EF6EF2EG2FE5d44B63D13BD34B37D64FABABABABABABAB",
   "ABABABABABABABABABABABABABABABABABABABABABABABABABABABABABABABABABABABABABABABABABABABABABAB",
   "ABABABABABABABABABABABABABABABABABABABABABA9BABABABABABABABABABABABABABABABABABABABABABABABA",
   "BABABABABABABABABABABABABABABABABABABABABABABABABA9B8A6B2d6A2d8B8A8B8A6B2d6A2d8BdAdAdAdA8B8A",
   "14B2d8B8C8B8C8B8C5Bd2B4ACUB3U3Bd2B4AC3U4B2d2B4Ad3U8B5A3U2d3Bd2B4AC2Ud11W5a6M2RPQN2PQNP8RXY5a",
   "W9RPQ4R2L3RSNO11RSRL10RW5ad10aKD2d6K3SNOD10K3SNOd13D3d34T14d13F4HF3H12F15d2VA4VA2VB3A2B3ABVA",
   "2VS5A6VAVAVAV4AVB4AB4EB2V2B2A5SA4BVS2VBV16K35JAB4JK2V4d5S5V2S4VS2VS2VS7VS31V2S2VSVS31V268S8V",
   "NONO20V2S7VNO81VS30V25S40V6S72V22d11V21d60K78V22K183VS9VS54V8S111VS248VNONONONONONONO30K44V",
   "5SNO31SNONONONONO16S256V131SNONONONONONONONONONONO63SNONO32SNO258S48V21S2V6S39V2d138V48A48BA",
   "B3A2BABABAB4ABA2BA6B2D3ABABABABABABABABABABABABABABABABABABABABABABABABABABABABABABABABABABA",
   "BABABABABABABABABABABABABABABA2B6VABAB3FAB5d4RK2R38BdB5dB2d56E7dDR14dF23E9d7Ed7Ed7Ed7Ed7Ed7E",
   "d7Ed7Ed32F2RPQPQ3RPQRPQ9RM2RMRPQ2RPQNONONONO5RD10R2M4RMRN13R2V3RNONONONOM34d26Vd89V12d214V",
   "26d16VW3RVDEJNONONONONO2VNONONONOMN2OV9J4F2GM5D2V3JDER2Vd86E2d2F2U2DEM90ER3DE5d43Ed94Ed2V4K",
   "10V32E38V9dV16E31Vd10K30V8KV15K32V10K39V15K320V6592E64V21013ED1143E3d55V9d40E6D2R268ED3R16E",
   "10I2E20dABABABABABABABABABABABABABABABABABABABABABABABEF3HR10FRDABABABABABABABABABABABABABAB",
   "2D2F70E10J2F6R8d23U9D2UABABABABABABA3BABABABABABABABABABABABABABABABABABABABABABABABABABABAB",
   "ABABABABD8BABAB2ABABABABABD2UABABEABA3BABABABABABABABABABAB5AB5ABABABABABABABAB4ABAB2ABABABA",
   "BABABABABA20d4DABE2DB7EF3EF4EF23E2G2FG4VF3d6K2VTV6d52E4R8d2G50E16G2F8d2R10I6d18F6E3RER2EF10I",
   "28E8F2R23E11F2G11dR29E3d3FG47EF2G4F2G2F3G13RdD10I4d2R5EFD9E10I5Ed41E6F2G2F2G2F9d3EF8EFG2d10I",
   "2d4R16ED6E3VEGFG50EFE3F2E2F5E2FEFE24d2ED2R11EG2F2G2RE2DGF10d6E2d6E2d6E9d7Ed7Ed43BU4D9BD2U4d",
   "80B35E2GF2GF2GRGF2d10I6d11172E12d23E4d49E4d2048b6400c366E2d106E38d7B12d5B5dEF10ES13Ed5EdEd2E",
   "d2Ed108E17U16V363EON16V64E2V54E8V32d12ET3V16F7RNOR6d16FR2M2LNONONONONONONONO2RNO4R3L3Rd4RMNO",
   "NONO3RSM3SdRT2R4d5Ed135E2dad3RT3RNORSRM2R10I2R3S2R26ANROULU26BNSOSNORNO2R10ED45E2D31E3d6E2d",
   "6E2d6E2d3E3d2TSUV2TdV4S2V10d3a2V2d12Ed26Ed19Ed2Ed15E2d14E34d123E5d3R4d45K3d9V53J4K17V2K3Vd",
   "13V3dV47d45VF130d29E3d49E15dF27K4d32E4K9d20EJ8EJ5d38E5F5d30EdR36E4d8ER5J42d40A40B78E2d10I6d",
   "36A4d36B4d40E8d52E11dR11Ad15Ad7Ad2Ad11Bd15Bd7Bd2B3d52E12d311E9d22E10d8E24d6Dd42Dd9D69d6E2dEd",
   "44Ed2E3dE2d23EdR8K23E2V7K31E8d9K48d19Ed2E5d5K22E6K3dR26E5dR26E38d56E4d2K2E16K2d46KE3Fd2F5d4F",
   "4Ed3Ed29E2d3F4dF9K7d9R7d29E2KR29E3K32d8EV28E2F4d5K7R9d54E3d7R22E2d8K19E5d8K18E7d4R12d7K80d",
   "73E55d51A13d51B7d6K36E4F8d10I6d10I4EDE22A3d5FMD22B8d2S208d31Kd42Ed2FM2d2E16d3ED2E8dR8V33d6F",
   "29E10KE8d22E11F4K5R22d18E4F4R38d21E7K20d23E9dGFG53E15F7R4d20K10IF2E2FE9d3FG45E3G4F2G2F2Ra4RF",
   "10da2d25E7d10I6d3F36E5FG8Fd10I4RE2GE8d35EF2RE9d2FG48E3G9F2G4E4R4FRGF10IERE3Rd20K11d18Ed25E3G",
   "3F2GFG2F6RF2EF62d7EdEd4Ed15Ed10ER6d47EF3G8F5d10I6d2F2Gd8E2d2E2d22Ed7Ed2Ed5Ed2FE2GF4G2d2G2d3G",
   "2dE6dG5d5E2G2d7F3d5F11d10EdE2dEd38EdE3G6FdG2dGd4Gd2GFGFEFE2Rd2R8d2F29d53E3G8F2G3FGF4E5R10I2R",
   "dRF3E30d48E3G6FGF4G2FG2F2ERE8d10I166d47E3G4F2d4G2FG2F23R4E2F34d48E3G8F2GFG2F3RE11d10I6d13R",
   "19d43EFGF2G6FGFER6d10I6d20I28d27E2dFGF2G4FG5F4d10I2K3RV7E185d44E3G9FG2FR100d32A32B10I9K12d8E",
   "2dE2d8Ed2Ed24E6Gd2G2d2FGFEGEGF3R9d10I70d8E2d39E3G4F2d2F4GFEREG27dE10F40E6FGE4F8RF8dE6F2G3F",
   "46E13FG2F3RE5R13d73E7d10R86dFG3FGFG88d33ER14d10I6d9Ed37EG7Fd6FGFE5R10d10I19K3d2R30E2d22FdG7F",
   "G2FG2F73d7Ed2Ed38E6F3dFd2Fd7FEF8d10I6d6Ed2Ed32E5Gd2Fd2GFGFE7d10I6d41ED2E4d10I246d19E2F2G2R7d",
   "2FEG13Ed34E2G5F3d2GFGF13R10IF85dE15d21K8V4T17V13dR922E102d111Jd5R11d196E2636d97E2R13d1072E",
   "16aF6E15F10d3995E5d583E6841d30E12F3G3F10I1734d569E7d31Ed10I4d2R79Ed10I6d30E2d5FR10d48E7F5R4V",
   "4DRV10d10Id7Kd21E5d19E432d3D40E2D3R10I198d32A32B23K4R5d25A2d25B44d75E4dFE55G7d4F13D64d2DRDF",
   "11d2G2D3J9d7382E41d32E97d115E8701d4Dd7Dd2Dd291E15dE29d3E2dE14d4E8d396E2308d107E5d13E3d9E7d",
   "10E2dV2FR4a3932d240V10I3V3d436V6d23V15d16VS15d46F2d23F9d116V60d246V10d39V2d60V2G3F3V6G8a8F2V",
   "7F30V4F61V21d66V3FV122d20K12d20K12d87V9d25K135d26A26B26A7Bd18B26A26BAd2A2dA2d2A2d4Ad8A4BdBd",
   "7Bd11B26A26B2Ad4A2d8Ad7Ad26B2Ad4Ad5AdA3d7Ad26B26A26B26A26B26A26B26A26B26A26B26A28B2d25AS25BS",
   "6B25AS25BS6B25AS25BS6B25AS25BS6B25AS25BS6BAB2d50I512V55F4V50F8VF14VF2V5R15d5Fd15F1104d10BE",
   "20B6d6B213d7Fd17F2d7Fd2Fd5F5d62D33dF112d45E3d7F7D2d10I4dEV320d30EF17d44E4F10I5dT464d27ED4F",
   "10I214d30E2FE10I4dR192d31Ed3EF2EF7E2F5EF8dED224d7Ed4Ed2Ed15Ed197E2d9K7F41d34A34B7FD4d10I4d2R",
   "785d59KV3KT4K76d45KV15K194d4Ed27Ed2EdE2dEd10Ed4EdEdE6dE4dEdEdEd3Ed2EdE2dEdEdEdEdEd2EdE2d4Ed",
   "7Ed4Ed4EdEd10Ed17E5d3Ed5Ed17E52d2S270d44V4d100V12d15V2d15Vd15Vd37V10d13K161V56d29V13d44V4d9V",
   "7d2V14d6V154d251V5U729V3d17V3d13V3d218V6d12V4dV15d12V4d56V8d10V6d40V8d30V2d12V4d2V14d9S39d",
   "344V8d14V2d13V3d11V3d57VdV4d16V2d12V4d10V7d147Vd92V10IV1029d42720E32d4382E2d5774E2d7473E15d",
   "622E2466d542E1506d4939E5d8490E707463da30d96a128d240F65040d65534c2d65534c2d"]

/-- The stretches of one category: first and last code point, and letter. -/
def categoryStretches : List (Nat × Nat × Char) :=
  stretchesOf 0 0 (categoryRuns.flatMap String.toList)

/-- The letter of a category. -/
private def letterOf (name : String) : Char :=
  ((categoryNames.zip categoryLetters).lookup name).getD ' '

/-- **The characters of some categories**, given by their short names. -/
def CharSet.ofCategories (names : List String) : CharSet :=
  let letters := names.map letterOf
  .ofSorted (categoryStretches.filterMap fun (first, last, letter) ↦
    if letters.contains letter then some (first, last) else none)

end ReactiveForm
