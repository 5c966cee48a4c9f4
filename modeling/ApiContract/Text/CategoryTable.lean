/-!
# General categories and scripts

Data of the Unicode standard. Each table lists runs of consecutive code points from zero on: the
length of the run and a key. The key of a general category is a letter, that of a script a number;
zero is no script.
-/

namespace ApiContract.Letter

/-- Names of the general categories and their unions, in lower case without separators, with the
keys they cover. -/
def categoryNames : List (String × String) := [
  ("c", "Zabcd"), ("casedletter", "ABC"), ("cc", "Z"), ("cf", "a"), ("closepunctuation", "O"),
  ("cn", "d"), ("cntrl", "Z"), ("co", "c"), ("combiningmark", "FGH"),
  ("connectorpunctuation", "L"), ("control", "Z"), ("currencysymbol", "T"),
  ("dashpunctuation", "M"), ("decimalnumber", "I"), ("digit", "I"), ("enclosingmark", "H"),
  ("finalpunctuation", "Q"), ("format", "a"), ("initialpunctuation", "P"), ("l", "ABCDE"),
  ("lc", "ABC"), ("letter", "ABCDE"), ("letternumber", "J"), ("lineseparator", "X"), ("ll", "B"),
  ("lm", "D"), ("lo", "E"), ("lowercaseletter", "B"), ("lt", "C"), ("lu", "A"), ("m", "FGH"),
  ("mark", "FGH"), ("mathsymbol", "S"), ("mc", "G"), ("me", "H"), ("mn", "F"),
  ("modifierletter", "D"), ("modifiersymbol", "U"), ("n", "IJK"), ("nd", "I"), ("nl", "J"),
  ("no", "K"), ("nonspacingmark", "F"), ("number", "IJK"), ("openpunctuation", "N"),
  ("other", "Zabcd"), ("otherletter", "E"), ("othernumber", "K"), ("otherpunctuation", "R"),
  ("othersymbol", "V"), ("p", "LMNOPQR"), ("paragraphseparator", "Y"), ("pc", "L"), ("pd", "M"),
  ("pe", "O"), ("pf", "Q"), ("pi", "P"), ("po", "R"), ("privateuse", "c"), ("ps", "N"),
  ("punct", "LMNOPQR"), ("punctuation", "LMNOPQR"), ("s", "STUV"), ("sc", "T"),
  ("separator", "WXY"), ("sk", "U"), ("sm", "S"), ("so", "V"), ("spaceseparator", "W"),
  ("spacingmark", "G"), ("symbol", "STUV"), ("titlecaseletter", "C"),
  ("unassigned", "d"), ("uppercaseletter", "A"), ("z", "WXY"), ("zl", "X"), ("zp", "Y"),
  ("zs", "W")]

/-- Names of the scripts, in lower case without separators, with their keys. -/
def scriptNames : List (String × Nat) := [
  ("adlm", 1), ("adlam", 1), ("aghb", 2), ("caucasianalbanian", 2), ("ahom", 3), ("arab", 4),
  ("arabic", 4), ("armi", 5), ("imperialaramaic", 5), ("armn", 6), ("armenian", 6), ("avst", 7),
  ("avestan", 7), ("bali", 8), ("balinese", 8), ("bamu", 9), ("bamum", 9), ("bass", 10),
  ("bassavah", 10), ("batk", 11), ("batak", 11), ("beng", 12), ("bengali", 12), ("bhks", 13),
  ("bhaiksuki", 13), ("bopo", 14), ("bopomofo", 14), ("brah", 15), ("brahmi", 15), ("brai", 16),
  ("braille", 16), ("bugi", 17), ("buginese", 17), ("buhd", 18), ("buhid", 18), ("cakm", 19),
  ("chakma", 19), ("cans", 20), ("canadianaboriginal", 20), ("cari", 21), ("carian", 21),
  ("cham", 22), ("cher", 23), ("cherokee", 23), ("chrs", 24), ("chorasmian", 24), ("copt", 25),
  ("coptic", 25), ("qaac", 25), ("cpmn", 26), ("cyprominoan", 26), ("cprt", 27), ("cypriot", 27),
  ("cyrl", 28), ("cyrillic", 28), ("deva", 29), ("devanagari", 29), ("diak", 30),
  ("divesakuru", 30), ("dogr", 31), ("dogra", 31), ("dsrt", 32), ("deseret", 32), ("dupl", 33),
  ("duployan", 33), ("egyp", 34), ("egyptianhieroglyphs", 34), ("elba", 35), ("elbasan", 35),
  ("elym", 36), ("elymaic", 36), ("ethi", 37), ("ethiopic", 37), ("geor", 38), ("georgian", 38),
  ("glag", 39), ("glagolitic", 39), ("gong", 40), ("gunjalagondi", 40), ("gonm", 41),
  ("masaramgondi", 41), ("goth", 42), ("gothic", 42), ("gran", 43), ("grantha", 43), ("grek", 44),
  ("greek", 44), ("gujr", 45), ("gujarati", 45), ("guru", 46), ("gurmukhi", 46), ("hang", 47),
  ("hangul", 47), ("hani", 48), ("han", 48), ("hano", 49), ("hanunoo", 49), ("hatr", 50),
  ("hatran", 50), ("hebr", 51), ("hebrew", 51), ("hira", 52), ("hiragana", 52), ("hluw", 53),
  ("anatolianhieroglyphs", 53), ("hmng", 54), ("pahawhhmong", 54), ("hmnp", 55),
  ("nyiakengpuachuehmong", 55), ("hung", 56), ("oldhungarian", 56), ("ital", 57),
  ("olditalic", 57), ("java", 58), ("javanese", 58), ("kali", 59), ("kayahli", 59), ("kana", 60),
  ("katakana", 60), ("kawi", 61), ("khar", 62), ("kharoshthi", 62), ("khmr", 63), ("khmer", 63),
  ("khoj", 64), ("khojki", 64), ("kits", 65), ("khitansmallscript", 65), ("knda", 66),
  ("kannada", 66), ("kthi", 67), ("kaithi", 67), ("lana", 68), ("taitham", 68), ("laoo", 69),
  ("lao", 69), ("latn", 70), ("latin", 70), ("lepc", 71), ("lepcha", 71), ("limb", 72),
  ("limbu", 72), ("lina", 73), ("lineara", 73), ("linb", 74), ("linearb", 74), ("lisu", 75),
  ("lyci", 76), ("lycian", 76), ("lydi", 77), ("lydian", 77), ("mahj", 78), ("mahajani", 78),
  ("maka", 79), ("makasar", 79), ("mand", 80), ("mandaic", 80), ("mani", 81), ("manichaean", 81),
  ("marc", 82), ("marchen", 82), ("medf", 83), ("medefaidrin", 83), ("mend", 84),
  ("mendekikakui", 84), ("merc", 85), ("meroiticcursive", 85), ("mero", 86),
  ("meroitichieroglyphs", 86), ("mlym", 87), ("malayalam", 87), ("modi", 88), ("mong", 89),
  ("mongolian", 89), ("mroo", 90), ("mro", 90), ("mtei", 91), ("meeteimayek", 91), ("mult", 92),
  ("multani", 92), ("mymr", 93), ("myanmar", 93), ("nagm", 94), ("nagmundari", 94), ("nand", 95),
  ("nandinagari", 95), ("narb", 96), ("oldnortharabian", 96), ("nbat", 97), ("nabataean", 97),
  ("newa", 98), ("nkoo", 99), ("nko", 99), ("nshu", 100), ("nushu", 100), ("ogam", 101),
  ("ogham", 101), ("olck", 102), ("olchiki", 102), ("orkh", 103), ("oldturkic", 103),
  ("orya", 104), ("oriya", 104), ("osge", 105), ("osage", 105), ("osma", 106), ("osmanya", 106),
  ("ougr", 107), ("olduyghur", 107), ("palm", 108), ("palmyrene", 108), ("pauc", 109),
  ("paucinhau", 109), ("perm", 110), ("oldpermic", 110), ("phag", 111), ("phagspa", 111),
  ("phli", 112), ("inscriptionalpahlavi", 112), ("phlp", 113), ("psalterpahlavi", 113),
  ("phnx", 114), ("phoenician", 114), ("plrd", 115), ("miao", 115), ("prti", 116),
  ("inscriptionalparthian", 116), ("rjng", 117), ("rejang", 117), ("rohg", 118),
  ("hanifirohingya", 118), ("runr", 119), ("runic", 119), ("samr", 120), ("samaritan", 120),
  ("sarb", 121), ("oldsoutharabian", 121), ("saur", 122), ("saurashtra", 122), ("sgnw", 123),
  ("signwriting", 123), ("shaw", 124), ("shavian", 124), ("shrd", 125), ("sharada", 125),
  ("sidd", 126), ("siddham", 126), ("sind", 127), ("khudawadi", 127), ("sinh", 128),
  ("sinhala", 128), ("sogd", 129), ("sogdian", 129), ("sogo", 130), ("oldsogdian", 130),
  ("sora", 131), ("sorasompeng", 131), ("soyo", 132), ("soyombo", 132), ("sund", 133),
  ("sundanese", 133), ("sylo", 134), ("sylotinagri", 134), ("syrc", 135), ("syriac", 135),
  ("tagb", 136), ("tagbanwa", 136), ("takr", 137), ("takri", 137), ("tale", 138), ("taile", 138),
  ("talu", 139), ("newtailue", 139), ("taml", 140), ("tamil", 140), ("tang", 141),
  ("tangut", 141), ("tavt", 142), ("taiviet", 142), ("telu", 143), ("telugu", 143), ("tfng", 144),
  ("tifinagh", 144), ("tglg", 145), ("tagalog", 145), ("thaa", 146), ("thaana", 146),
  ("thai", 147), ("tibt", 148), ("tibetan", 148), ("tirh", 149), ("tirhuta", 149), ("tnsa", 150),
  ("tangsa", 150), ("toto", 151), ("ugar", 152), ("ugaritic", 152), ("vaii", 153), ("vai", 153),
  ("vith", 154), ("vithkuqi", 154), ("wara", 155), ("warangciti", 155), ("wcho", 156),
  ("wancho", 156), ("xpeo", 157), ("oldpersian", 157), ("xsux", 158), ("cuneiform", 158),
  ("yezi", 159), ("yezidi", 159), ("yiii", 160), ("yi", 160), ("zanb", 161),
  ("zanabazarsquare", 161), ("zinh", 162), ("inherited", 162), ("qaai", 162), ("zyyy", 163),
  ("common", 163)]

def categoryRuns : List String := [
  "32Z1W3R1T3R1N1O1R1S1R1M2R10I2R3S2R26A1N1R1O1U1L1U26B1N1S1O1S33Z1W1R4T1V1R1U1V1E1P1S1a1V1U1V",
  "1S2K1U1B2R1U1K1E1Q3K1R23A1S7A24B1S8B1A1B1A1B1A1B1A1B1A1B1A1B1A1B1A1B1A1B1A1B1A1B1A1B1A1B1A1B",
  "1A1B1A1B1A1B1A1B1A1B1A1B1A1B1A1B1A1B1A1B1A1B1A1B1A1B1A2B1A1B1A1B1A1B1A1B1A1B1A1B1A1B1A2B1A1B",
  "1A1B1A1B1A1B1A1B1A1B1A1B1A1B1A1B1A1B1A1B1A1B1A1B1A1B1A1B1A1B1A1B1A1B1A1B1A1B1A1B1A1B1A1B2A1B",
  "1A1B1A3B2A1B1A1B2A1B3A2B4A1B2A1B3A3B2A1B2A1B1A1B1A1B2A1B1A2B1A1B2A1B3A1B1A1B2A2B1E1A3B4E1A1C",
  "1B1A1C1B1A1C1B1A1B1A1B1A1B1A1B1A1B1A1B1A1B1A2B1A1B1A1B1A1B1A1B1A1B1A1B1A1B1A1B1A2B1A1C1B1A1B",
  "3A1B1A1B1A1B1A1B1A1B1A1B1A1B1A1B1A1B1A1B1A1B1A1B1A1B1A1B1A1B1A1B1A1B1A1B1A1B1A1B1A1B1A1B1A1B",
  "1A1B1A1B1A1B1A1B1A1B1A1B1A7B2A1B2A2B1A1B4A1B1A1B1A1B1A1B1A69B2E26B18D4U12D14U5D7U1D1U1D17U",
  "112F1A1B1A1B1D1U1A1B2d1D3B1R1A4d2U1A1R3A1d1A1d2A1B17A1d9A35B1A2B3A3B1A1B1A1B1A1B1A1B1A1B1A1B",
  "1A1B1A1B1A1B1A1B1A1B1A5B1A1B1S1A1B2A2B51A48B1A1B1A1B1A1B1A1B1A1B1A1B1A1B1A1B1A1B1A1B1A1B1A1B",
  "1A1B1A1B1A1B1A1B1A1B1V5F2H1A1B1A1B1A1B1A1B1A1B1A1B1A1B1A1B1A1B1A1B1A1B1A1B1A1B1A1B1A1B1A1B1A",
  "1B1A1B1A1B1A1B1A1B1A1B1A1B1A1B1A1B1A1B1A1B2A1B1A1B1A1B1A1B1A1B1A1B1A2B1A1B1A1B1A1B1A1B1A1B1A",
  "1B1A1B1A1B1A1B1A1B1A1B1A1B1A1B1A1B1A1B1A1B1A1B1A1B1A1B1A1B1A1B1A1B1A1B1A1B1A1B1A1B1A1B1A1B1A",
  "1B1A1B1A1B1A1B1A1B1A1B1A1B1A1B1A1B1A1B1A1B1A1B1A1B1A1B1A1B1A1B1A1B1A1B1A1B1A1B1d38A2d1D6R41B",
  "1R1M2d2V1T1d45F1M1F1R2F1R2F1R1F8d27E4d4E2R11d6a3S2R1T2R2V11F1R1a3R32E1D10E21F10I4R2E1F99E1R",
  "1E7F1a1V6F2D2F1V4F2E10I3E2V1E14R1d1a1E1F30E27F2d89E11F1E14d10I33E9F2D1V3R1D2d1F2T22E4F1D9F1D",
  "3F1D5F2d15R1d25E3F2d1R1d11E5d24E1U7E2a5d9F41E1D24F1a32F1G54E1F1G1F1E3G8F4G1F2G1E7F10E2F2R10I",
  "1R1D15E1F2G1d8E2d2E2d22E1d7E1d1E3d4E2d1F1E3G4F2d2G2d2G1F1E8d1G4d2E1d3E2F2d10I2E2T6K1V1T1E1R",
  "1F2d2F1G1d6E4d2E2d22E1d7E1d2E1d2E1d2E2d1F1d3G2F4d2F2d3F3d1F7d4E1d1E7d10I2F3E1F1R10d2F1G1d9E",
  "1d3E1d22E1d7E1d2E1d5E2d1F1E3G5F1d2F1G1d2G1F2d1E15d2E2F2d10I1R1T7d1E6F1d1F2G1d8E2d2E2d22E1d7E",
  "1d2E1d5E2d1F1E1G1F1G4F2d2G2d2G1F7d2F1G4d2E1d3E2F2d10I1V1E6K10d1F1E1d6E3d3E1d4E3d2E1d1E1d2E3d",
  "2E3d3E3d12E4d2G1F2G3d3G1d3G1F2d1E6d1G14d10I3K6V1T1V5d1F3G1F8E1d3E1d23E1d16E2d1F1E3F4G1d3F1d",
  "4F7d2F1d3E1d2E2d2E2F2d10I7d1R7K1V1E1F2G1R8E1d3E1d23E1d10E1d5E2d1F1E1G1F5G1d1F2G1d2G2F7d2G5d",
  "3E1d2E2F2d10I1d2E1G12d2F2G9E1d3E1d41E2F1E3G4F1d3G1d3G1F1E1V4d3E1G7K3E2F2d10I9K1V6E1d1F2G1d",
  "18E3d24E1d9E1d1E2d7E3d1F4d3G3F1d1F1d8G6d10I2d2G1R12d48E1F2E7F4d1T6E1D8F1R10I2R37d2E1d1E1d5E",
  "1d24E1d1E1d10E1F2E9F1E2d5E1d1D1d7F1d10I2d4E32d1E3V15R1V1R3V2F6V10I10K1V1F1V1F1V1F1N1O1N1O2G",
  "8E1d36E4d14F1G5F1R2F5E11F1d36F1d8V1F6V1d2V5R4V2R37d43E2G4F1G6F1G2F2G2F1E10I6R6E2G2F4E3F1E3G",
  "2E7G3E4F13E1F2G2F6G1F1E1G10I3G1F2V38A1d1A5d1A2d43B1R1D3B329E1d4E2d7E1d1E1d4E2d41E1d4E2d33E1d",
  "4E2d7E1d1E1d4E2d15E1d57E1d4E2d67E2d3F9R20K3d16E10V6d86A2d6B2d1M620E1V1R17E1W26E1N1O3d75E3R3J",
  "8E7d18E3F1G9d19E2F1G2R9d18E2F12d13E1d3E1d2F12d52E2F1G7F8G1F2G11F3R1D3R1T1E1F2d10I6d10K6d6R1M",
  "4R3F1a1F10I6d35E1D53E7d5E2F34E1F1E5d70E10d31E1d3F4G2F3G4d2G1F6G3F4d1V3d2R10I30E2d5E11d44E4d",
  "26E6d10I1K3d34V23E2F2G1F2d2R53E1G1F1G7F1d1F1G1F2G8F6G10F2d1F10I6d10I6d7R1D6R2d14F1H31F2d12F",
  "20d4F1G47E1F1G5F1G1F5G1F2G8E1d2R10I7R10V9F9V3R2F1G30E1G4F2G2F1G3F2E10I44E1F1G2F3G1F1G3F2G8d",
  "4R36E8G8F2G2F3d5R10I3d3E10I30E6D2R9B1A1B5d43A2d3A8R8d3F1R13F1G7F4E1F6E1F2E1G2F1E5d44B63D13B",
  "1D34B37D64F1A1B1A1B1A1B1A1B1A1B1A1B1A1B1A1B1A1B1A1B1A1B1A1B1A1B1A1B1A1B1A1B1A1B1A1B1A1B1A1B",
  "1A1B1A1B1A1B1A1B1A1B1A1B1A1B1A1B1A1B1A1B1A1B1A1B1A1B1A1B1A1B1A1B1A1B1A1B1A1B1A1B1A1B1A1B1A1B",
  "1A1B1A1B1A1B1A1B1A1B1A1B1A1B1A1B1A1B1A1B1A1B1A1B1A1B1A1B1A1B1A1B1A1B1A1B1A1B1A1B1A1B1A1B1A1B",
  "1A1B1A1B1A1B1A1B1A1B1A1B1A1B1A1B1A9B1A1B1A1B1A1B1A1B1A1B1A1B1A1B1A1B1A1B1A1B1A1B1A1B1A1B1A1B",
  "1A1B1A1B1A1B1A1B1A1B1A1B1A1B1A1B1A1B1A1B1A1B1A1B1A1B1A1B1A1B1A1B1A1B1A1B1A1B1A1B1A1B1A1B1A1B",
  "1A1B1A1B1A1B1A1B1A1B1A1B1A1B1A1B1A1B1A1B1A1B1A9B8A6B2d6A2d8B8A8B8A6B2d6A2d8B1d1A1d1A1d1A1d1A",
  "8B8A14B2d8B8C8B8C8B8C5B1d2B4A1C1U1B3U3B1d2B4A1C3U4B2d2B4A1d3U8B5A3U2d3B1d2B4A1C2U1d11W5a6M2R",
  "1P1Q1N2P1Q1N1P8R1X1Y5a1W9R1P1Q4R2L3R1S1N1O11R1S1R1L10R1W5a1d10a1K1D2d6K3S1N1O1D10K3S1N1O1d",
  "13D3d34T14d13F4H1F3H12F15d2V1A4V1A2V1B3A2B3A1B1V1A2V1S5A6V1A1V1A1V1A1V4A1V1B4A1B4E1B2V2B2A5S",
  "1A4B1V1S2V1B1V16K35J1A1B4J1K2V4d5S5V2S4V1S2V1S2V1S7V1S31V2S2V1S1V1S31V268S8V1N1O1N1O20V2S7V",
  "1N1O81V1S30V25S40V6S72V22d11V21d60K78V22K183V1S9V1S54V8S111V1S248V1N1O1N1O1N1O1N1O1N1O1N1O1N",
  "1O30K44V5S1N1O31S1N1O1N1O1N1O1N1O1N1O16S256V131S1N1O1N1O1N1O1N1O1N1O1N1O1N1O1N1O1N1O1N1O1N1O",
  "63S1N1O1N1O32S1N1O258S48V21S2V6S39V2d138V48A48B1A1B3A2B1A1B1A1B1A1B4A1B1A2B1A6B2D3A1B1A1B1A",
  "1B1A1B1A1B1A1B1A1B1A1B1A1B1A1B1A1B1A1B1A1B1A1B1A1B1A1B1A1B1A1B1A1B1A1B1A1B1A1B1A1B1A1B1A1B1A",
  "1B1A1B1A1B1A1B1A1B1A1B1A1B1A1B1A1B1A1B1A1B1A1B1A1B1A1B1A1B1A1B1A1B1A1B1A1B1A1B1A1B1A1B1A1B1A",
  "1B1A2B6V1A1B1A1B3F1A1B5d4R1K2R38B1d1B5d1B2d56E7d1D1R14d1F23E9d7E1d7E1d7E1d7E1d7E1d7E1d7E1d7E",
  "1d32F2R1P1Q1P1Q3R1P1Q1R1P1Q9R1M2R1M1R1P1Q2R1P1Q1N1O1N1O1N1O1N1O5R1D10R2M4R1M1R1N13R2V3R1N1O",
  "1N1O1N1O1N1O1M34d26V1d89V12d214V26d16V1W3R1V1D1E1J1N1O1N1O1N1O1N1O1N1O2V1N1O1N1O1N1O1N1O1M1N",
  "2O1V9J4F2G1M5D2V3J1D1E1R2V1d86E2d2F2U2D1E1M90E1R3D1E5d43E1d94E1d2V4K10V32E38V9d1V16E31V1d10K",
  "30V8K1V15K32V10K39V15K320V6592E64V21013E1D1143E3d55V9d40E6D2R268E1D3R16E10I2E20d1A1B1A1B1A1B",
  "1A1B1A1B1A1B1A1B1A1B1A1B1A1B1A1B1A1B1A1B1A1B1A1B1A1B1A1B1A1B1A1B1A1B1A1B1A1B1A1B1E1F3H1R10F",
  "1R1D1A1B1A1B1A1B1A1B1A1B1A1B1A1B1A1B1A1B1A1B1A1B1A1B1A1B1A1B2D2F70E10J2F6R8d23U9D2U1A1B1A1B",
  "1A1B1A1B1A1B1A1B1A3B1A1B1A1B1A1B1A1B1A1B1A1B1A1B1A1B1A1B1A1B1A1B1A1B1A1B1A1B1A1B1A1B1A1B1A1B",
  "1A1B1A1B1A1B1A1B1A1B1A1B1A1B1A1B1A1B1A1B1A1B1A1B1A1B1D8B1A1B1A1B2A1B1A1B1A1B1A1B1A1B1D2U1A1B",
  "1A1B1E1A1B1A3B1A1B1A1B1A1B1A1B1A1B1A1B1A1B1A1B1A1B1A1B5A1B5A1B1A1B1A1B1A1B1A1B1A1B1A1B1A1B4A",
  "1B1A1B2A1B1A1B1A1B1A1B1A1B1A1B1A1B1A1B1A20d4D1A1B1E2D1B7E1F3E1F4E1F23E2G2F1G4V1F3d6K2V1T1V6d",
  "52E4R8d2G50E16G2F8d2R10I6d18F6E3R1E1R2E1F10I28E8F2R23E11F2G11d1R29E3d3F1G47E1F2G4F2G2F3G13R",
  "1d1D10I4d2R5E1F1D9E10I5E1d41E6F2G2F2G2F9d3E1F8E1F1G2d10I2d4R16E1D6E3V1E1G1F1G50E1F1E3F2E2F5E",
  "2F1E1F1E24d2E1D2R11E1G2F2G2R1E2D1G1F10d6E2d6E2d6E9d7E1d7E1d43B1U4D9B1D2U4d80B35E2G1F2G1F2G1R",
  "1G1F2d10I6d11172E12d23E4d49E4d2048b6400c366E2d106E38d7B12d5B5d1E1F10E1S13E1d5E1d1E1d2E1d2E1d",
  "108E17U16V363E1O1N16V64E2V54E8V32d12E1T3V16F7R1N1O1R6d16F1R2M2L1N1O1N1O1N1O1N1O1N1O1N1O1N1O",
  "1N1O2R1N1O4R3L3R1d4R1M1N1O1N1O1N1O3R1S1M3S1d1R1T2R4d5E1d135E2d1a1d3R1T3R1N1O1R1S1R1M2R10I2R",
  "3S2R26A1N1R1O1U1L1U26B1N1S1O1S1N1O1R1N1O2R10E1D45E2D31E3d6E2d6E2d6E2d3E3d2T1S1U1V2T1d1V4S2V",
  "10d3a2V2d12E1d26E1d19E1d2E1d15E2d14E34d123E5d3R4d45K3d9V53J4K17V2K3V1d13V3d1V47d45V1F130d29E",
  "3d49E15d1F27K4d32E4K9d20E1J8E1J5d38E5F5d30E1d1R36E4d8E1R5J42d40A40B78E2d10I6d36A4d36B4d40E8d",
  "52E11d1R11A1d15A1d7A1d2A1d11B1d15B1d7B1d2B3d52E12d311E9d22E10d8E24d6D1d42D1d9D69d6E2d1E1d44E",
  "1d2E3d1E2d23E1d1R8K23E2V7K31E8d9K48d19E1d2E5d5K22E6K3d1R26E5d1R26E38d56E4d2K2E16K2d46K1E3F1d",
  "2F5d4F4E1d3E1d29E2d3F4d1F9K7d9R7d29E2K1R29E3K32d8E1V28E2F4d5K7R9d54E3d7R22E2d8K19E5d8K18E7d",
  "4R12d7K80d73E55d51A13d51B7d6K36E4F8d10I6d10I4E1D1E22A3d5F1M1D22B8d2S208d31K1d42E1d2F1M2d2E",
  "16d3E1D2E8d1R8V33d6F29E10K1E8d22E11F4K5R22d18E4F4R38d21E7K20d23E9d1G1F1G53E15F7R4d20K10I1F2E",
  "2F1E9d3F1G45E3G4F2G2F2R1a4R1F10d1a2d25E7d10I6d3F36E5F1G8F1d10I4R1E2G1E8d35E1F2R1E9d2F1G48E3G",
  "9F2G4E4R4F1R1G1F10I1E1R1E3R1d20K11d18E1d25E3G3F2G1F1G2F6R1F2E1F62d7E1d1E1d4E1d15E1d10E1R6d",
  "47E1F3G8F5d10I6d2F2G1d8E2d2E2d22E1d7E1d2E1d5E1d2F1E2G1F4G2d2G2d3G2d1E6d1G5d5E2G2d7F3d5F11d",
  "10E1d1E2d1E1d38E1d1E3G6F1d1G2d1G1d4G1d2G1F1G1F1E1F1E2R1d2R8d2F29d53E3G8F2G3F1G1F4E5R10I2R1d",
  "1R1F3E30d48E3G6F1G1F4G2F1G2F2E1R1E8d10I166d47E3G4F2d4G2F1G2F23R4E2F34d48E3G8F2G1F1G2F3R1E11d",
  "10I6d13R19d43E1F1G1F2G6F1G1F1E1R6d10I6d20I28d27E2d1F1G1F2G4F1G5F4d10I2K3R1V7E185d44E3G9F1G2F",
  "1R100d32A32B10I9K12d8E2d1E2d8E1d2E1d24E6G1d2G2d2F1G1F1E1G1E1G1F3R9d10I70d8E2d39E3G4F2d2F4G1F",
  "1E1R1E1G27d1E10F40E6F1G1E4F8R1F8d1E6F2G3F46E13F1G2F3R1E5R13d73E7d10R86d1F1G3F1G1F1G88d33E1R",
  "14d10I6d9E1d37E1G7F1d6F1G1F1E5R10d10I19K3d2R30E2d22F1d1G7F1G2F1G2F73d7E1d2E1d38E6F3d1F1d2F1d",
  "7F1E1F8d10I6d6E1d2E1d32E5G1d2F1d2G1F1G1F1E7d10I6d41E1D2E4d10I246d19E2F2G2R7d2F1E1G13E1d34E2G",
  "5F3d2G1F1G1F13R10I1F85d1E15d21K8V4T17V13d1R922E102d111J1d5R11d196E2636d97E2R13d1072E16a1F6E",
  "15F10d3995E5d583E6841d30E12F3G3F10I1734d569E7d31E1d10I4d2R79E1d10I6d30E2d5F1R10d48E7F5R4V4D",
  "1R1V10d10I1d7K1d21E5d19E432d3D40E2D3R10I198d32A32B23K4R5d25A2d25B44d75E4d1F1E55G7d4F13D64d2D",
  "1R1D1F11d2G2D3J9d7382E41d32E97d115E8701d4D1d7D1d2D1d291E15d1E29d3E2d1E14d4E8d396E2308d107E5d",
  "13E3d9E7d10E2d1V2F1R4a3932d240V10I3V3d436V6d23V15d16V1S15d46F2d23F9d116V60d246V10d39V2d60V2G",
  "3F3V6G8a8F2V7F30V4F61V21d66V3F1V122d20K12d20K12d87V9d25K135d26A26B26A7B1d18B26A26B1A1d2A2d1A",
  "2d2A2d4A1d8A4B1d1B1d7B1d11B26A26B2A1d4A2d8A1d7A1d26B2A1d4A1d5A1d1A3d7A1d26B26A26B26A26B26A",
  "26B26A26B26A26B26A28B2d25A1S25B1S6B25A1S25B1S6B25A1S25B1S6B25A1S25B1S6B25A1S25B1S6B1A1B2d50I",
  "512V55F4V50F8V1F14V1F2V5R15d5F1d15F1104d10B1E20B6d6B213d7F1d17F2d7F1d2F1d5F5d62D33d1F112d45E",
  "3d7F7D2d10I4d1E1V320d30E1F17d44E4F10I5d1T464d27E1D4F10I214d30E2F1E10I4d1R192d31E1d3E1F2E1F7E",
  "2F5E1F8d1E1D224d7E1d4E1d2E1d15E1d197E2d9K7F41d34A34B7F1D4d10I4d2R785d59K1V3K1T4K76d45K1V15K",
  "194d4E1d27E1d2E1d1E2d1E1d10E1d4E1d1E1d1E6d1E4d1E1d1E1d1E1d3E1d2E1d1E2d1E1d1E1d1E1d1E1d1E1d2E",
  "1d1E2d4E1d7E1d4E1d4E1d1E1d10E1d17E5d3E1d5E1d17E52d2S270d44V4d100V12d15V2d15V1d15V1d37V10d13K",
  "161V56d29V13d44V4d9V7d2V14d6V154d251V5U729V3d17V3d13V3d218V6d12V4d1V15d12V4d56V8d10V6d40V8d",
  "30V2d12V4d2V14d9S39d344V8d14V2d13V3d11V3d57V1d1V4d16V2d12V4d10V7d147V1d92V10I1V1029d42720E",
  "32d4382E2d5774E2d7473E15d622E2466d542E1506d4939E5d8490E707463d1a30d96a128d240F65040d65534c2d",
  "65534c2d"]

def scriptRuns : List String := [
  "65:163 26:70 6:163 26:70 47:163 1:70 15:163 1:70 5:163 23:70 1:163 31:70 1:163 449:70 ",
  "39:163 5:70 5:163 2:14 20:163 112:162 4:44 1:163 3:44 2:164 4:44 1:163 1:44 4:164 1:44 ",
  "1:163 1:44 1:163 3:44 1:164 1:44 1:164 20:44 1:164 63:44 14:25 16:44 133:28 2:162 169:28 ",
  "1:164 38:6 2:164 50:6 2:164 3:6 1:164 55:51 8:164 27:51 4:164 6:51 11:164 5:4 1:163 6:4 ",
  "1:163 14:4 1:163 3:4 1:163 32:4 1:163 10:4 11:162 26:4 1:162 108:4 1:163 34:4 14:135 1:164 ",
  "60:135 2:164 3:135 48:4 50:146 14:164 59:99 2:164 3:99 46:120 2:164 15:120 1:164 28:80 ",
  "2:164 1:80 1:164 11:135 5:164 34:4 5:164 75:4 1:163 29:4 81:29 4:162 15:29 2:163 26:29 4:12 ",
  "1:164 8:12 2:164 2:12 2:164 22:12 1:164 7:12 1:164 1:12 3:164 4:12 2:164 9:12 2:164 2:12 ",
  "2:164 4:12 8:164 1:12 4:164 2:12 1:164 5:12 2:164 25:12 2:164 3:46 1:164 6:46 4:164 2:46 ",
  "2:164 22:46 1:164 7:46 1:164 2:46 1:164 2:46 1:164 2:46 2:164 1:46 1:164 5:46 4:164 2:46 ",
  "2:164 3:46 3:164 1:46 7:164 4:46 1:164 1:46 7:164 17:46 10:164 3:45 1:164 9:45 1:164 3:45 ",
  "1:164 22:45 1:164 7:45 1:164 2:45 1:164 5:45 2:164 10:45 1:164 3:45 1:164 3:45 2:164 1:45 ",
  "15:164 4:45 2:164 12:45 7:164 7:45 1:164 3:104 1:164 8:104 2:164 2:104 2:164 22:104 1:164 ",
  "7:104 1:164 2:104 1:164 5:104 2:164 9:104 2:164 2:104 2:164 3:104 7:164 3:104 4:164 2:104 ",
  "1:164 5:104 2:164 18:104 10:164 2:140 1:164 6:140 3:164 3:140 1:164 4:140 3:164 2:140 1:164 ",
  "1:140 1:164 2:140 3:164 2:140 3:164 3:140 3:164 12:140 4:164 5:140 3:164 3:140 1:164 4:140 ",
  "2:164 1:140 6:164 1:140 14:164 21:140 5:164 13:143 1:164 3:143 1:164 23:143 1:164 16:143 ",
  "2:164 9:143 1:164 3:143 1:164 4:143 7:164 2:143 1:164 3:143 1:164 2:143 2:164 4:143 2:164 ",
  "10:143 7:164 9:143 13:66 1:164 3:66 1:164 23:66 1:164 10:66 1:164 5:66 2:164 9:66 1:164 ",
  "3:66 1:164 4:66 7:164 2:66 5:164 3:66 1:164 4:66 2:164 10:66 1:164 3:66 12:164 13:87 1:164 ",
  "3:87 1:164 51:87 1:164 3:87 1:164 6:87 4:164 16:87 2:164 26:87 1:164 3:128 1:164 18:128 ",
  "3:164 24:128 1:164 9:128 1:164 1:128 2:164 7:128 3:164 1:128 4:164 6:128 1:164 1:128 1:164 ",
  "8:128 6:164 10:128 2:164 3:128 12:164 58:147 4:164 1:163 28:147 37:164 2:69 1:164 1:69 ",
  "1:164 5:69 1:164 24:69 1:164 1:69 1:164 23:69 2:164 5:69 1:164 1:69 1:164 7:69 1:164 10:69 ",
  "2:164 4:69 32:164 72:148 1:164 36:148 4:164 39:148 1:164 36:148 1:164 15:148 1:164 7:148 ",
  "4:163 2:148 37:164 160:93 38:38 1:164 1:38 5:164 1:38 2:164 43:38 1:163 4:38 256:47 73:37 ",
  "1:164 4:37 2:164 7:37 1:164 1:37 1:164 4:37 2:164 41:37 1:164 4:37 2:164 33:37 1:164 4:37 ",
  "2:164 7:37 1:164 1:37 1:164 4:37 2:164 15:37 1:164 57:37 1:164 4:37 2:164 67:37 2:164 32:37 ",
  "3:164 26:37 6:164 86:23 2:164 6:23 2:164 640:20 29:101 3:164 75:119 3:163 11:119 7:164 ",
  "22:145 9:164 1:145 21:49 2:163 9:164 20:18 12:164 13:136 1:164 3:136 1:164 2:136 12:164 ",
  "94:63 2:164 10:63 6:164 10:63 6:164 2:89 2:163 1:89 1:163 20:89 6:164 89:89 7:164 43:89 ",
  "5:164 70:20 10:164 31:72 1:164 12:72 4:164 12:72 4:164 1:72 3:164 12:72 30:138 2:164 5:138 ",
  "11:164 44:139 4:164 26:139 6:164 11:139 3:164 2:139 32:63 28:17 2:164 2:17 63:68 1:164 ",
  "29:68 2:164 11:68 6:164 10:68 6:164 14:68 2:164 46:162 2:164 12:162 20:164 77:8 1:164 50:8 ",
  "64:133 52:11 8:164 4:11 56:71 3:164 15:71 3:164 3:71 48:102 11:28 5:164 43:38 2:164 3:38 ",
  "8:133 8:164 3:162 1:163 13:162 1:163 7:162 4:163 1:162 6:163 1:162 3:163 2:162 1:163 5:164 ",
  "38:70 5:44 1:28 49:70 5:44 4:70 5:44 13:70 1:28 70:70 1:44 64:162 256:70 22:44 2:164 6:44 ",
  "2:164 38:44 2:164 6:44 2:164 8:44 1:164 1:44 1:164 1:44 1:164 1:44 1:164 31:44 2:164 53:44 ",
  "1:164 15:44 1:164 14:44 2:164 6:44 1:164 19:44 2:164 3:44 1:164 9:44 1:164 12:163 2:162 ",
  "87:163 1:164 11:163 1:70 2:164 11:163 1:70 15:163 1:164 13:70 3:164 34:163 14:164 33:162 ",
  "15:164 38:163 1:44 3:163 2:70 6:163 1:70 27:163 1:70 17:163 41:70 3:163 4:164 666:163 ",
  "22:164 11:163 21:164 928:163 256:16 628:163 2:164 138:163 96:39 32:70 116:25 5:164 7:25 ",
  "38:38 1:164 1:38 5:164 1:38 2:164 56:144 7:164 2:144 14:164 1:144 23:37 9:164 7:37 1:164 ",
  "7:37 1:164 7:37 1:164 7:37 1:164 7:37 1:164 7:37 1:164 7:37 1:164 7:37 1:164 32:28 94:163 ",
  "34:164 26:48 1:164 89:48 12:164 214:48 26:164 21:163 1:48 1:163 1:48 25:163 9:48 4:162 2:47 ",
  "8:163 4:48 4:163 1:164 86:52 2:164 2:162 2:163 3:52 1:163 90:60 2:163 3:60 5:164 43:14 ",
  "1:164 94:47 1:164 16:163 32:14 38:163 9:164 1:163 16:60 31:47 1:164 64:163 31:47 81:163 ",
  "47:60 1:163 88:60 168:163 6592:48 64:163 20992:48 1165:160 3:164 55:160 9:164 48:75 300:153 ",
  "20:164 96:28 88:9 8:164 34:163 102:70 3:163 82:70 20:164 15:70 45:134 3:164 10:163 6:164 ",
  "56:111 8:164 70:122 8:164 12:122 6:164 32:29 46:59 1:163 1:59 36:117 11:164 1:117 29:47 ",
  "3:164 78:58 1:164 1:163 10:58 4:164 2:58 31:93 1:164 55:22 9:164 14:22 2:164 10:22 2:164 ",
  "4:22 32:93 67:142 24:164 5:142 23:91 10:164 6:37 2:164 6:37 2:164 6:37 9:164 7:37 1:164 ",
  "7:37 1:164 43:70 1:163 9:70 1:44 4:70 2:163 4:164 80:23 46:91 2:164 10:91 6:164 11172:47 ",
  "12:164 23:47 4:164 49:47 4:164 2048:0 6400:164 366:48 2:164 106:48 38:164 7:70 12:164 5:6 ",
  "5:164 26:51 1:164 5:51 1:164 1:51 1:164 2:51 1:164 2:51 1:164 10:51 494:4 2:163 144:4 ",
  "32:164 16:4 16:162 10:163 6:164 14:162 2:28 35:163 1:164 19:163 1:164 4:163 4:164 5:4 1:164 ",
  "135:4 2:164 1:163 1:164 32:163 26:70 6:163 26:70 11:163 10:60 1:163 45:60 2:163 31:47 3:164 ",
  "6:47 2:164 6:47 2:164 6:47 2:164 3:47 3:164 7:163 1:164 7:163 10:164 5:163 2:164 12:74 ",
  "1:164 26:74 1:164 19:74 1:164 2:74 1:164 15:74 2:164 14:74 34:164 123:74 5:164 3:163 4:164 ",
  "45:163 3:164 9:163 79:44 1:164 13:163 3:164 1:44 47:164 45:163 1:162 130:164 29:76 3:164 ",
  "49:21 15:164 1:162 27:163 4:164 36:57 9:164 3:57 27:42 5:164 43:110 5:164 30:152 1:164 ",
  "1:152 36:157 4:164 14:157 42:164 80:32 48:124 30:106 2:164 10:106 6:164 36:105 4:164 36:105 ",
  "4:164 40:35 8:164 52:2 11:164 1:2 11:154 1:164 15:154 1:164 7:154 1:164 2:154 1:164 11:154 ",
  "1:164 15:154 1:164 7:154 1:164 2:154 3:164 52:0 12:164 311:73 9:164 22:73 10:164 8:73 ",
  "24:164 6:70 1:164 42:70 1:164 9:70 69:164 6:27 2:164 1:27 1:164 44:27 1:164 2:27 3:164 1:27 ",
  "2:164 1:27 22:5 1:164 9:5 32:108 31:97 8:164 9:97 48:164 19:50 1:164 2:50 5:164 5:50 28:114 ",
  "3:164 1:114 26:77 5:164 1:77 26:0 38:164 32:86 24:85 4:164 20:85 2:164 46:85 4:62 1:164 ",
  "2:62 5:164 8:62 1:164 3:62 1:164 29:62 2:164 3:62 4:164 10:62 7:164 9:62 7:164 32:121 32:96 ",
  "32:164 39:81 4:164 12:81 9:164 54:7 3:164 7:7 22:116 2:164 8:116 19:112 5:164 8:112 18:113 ",
  "7:164 4:113 12:164 7:113 80:164 73:103 55:164 51:56 13:164 51:56 7:164 6:56 40:118 8:164 ",
  "10:118 6:164 38:0 3:164 29:0 8:164 2:0 208:164 31:4 1:164 42:159 1:164 3:159 2:164 2:159 ",
  "16:164 6:4 8:164 9:4 33:164 6:4 40:130 8:164 42:129 22:164 26:107 38:164 28:24 20:164 23:36 ",
  "9:164 78:15 4:164 36:15 9:164 1:15 67:67 10:164 1:67 2:164 25:131 7:164 10:131 6:164 53:19 ",
  "1:164 18:19 8:164 39:78 9:164 96:125 1:164 20:128 11:164 18:64 1:164 47:64 62:164 7:92 ",
  "1:164 1:92 1:164 4:92 1:164 15:92 1:164 11:92 6:164 59:127 5:164 10:127 6:164 4:43 1:164 ",
  "8:43 2:164 2:43 2:164 22:43 1:164 7:43 1:164 2:43 1:164 5:43 1:164 1:162 9:43 2:164 2:43 ",
  "2:164 3:43 2:164 1:43 6:164 1:43 5:164 7:43 2:164 7:43 3:164 5:43 11:164 10:0 1:164 1:0 ",
  "2:164 1:0 1:164 38:0 1:164 10:0 1:164 1:0 2:164 1:0 1:164 4:0 1:164 10:0 1:164 2:0 8:164 ",
  "2:0 29:164 92:98 1:164 5:98 30:164 72:149 8:164 10:149 166:164 54:126 2:164 38:126 34:164 ",
  "69:88 11:164 10:88 6:164 13:89 19:164 58:137 6:164 10:137 6:164 20:93 28:164 27:3 2:164 ",
  "15:3 4:164 23:3 185:164 60:31 100:164 83:155 12:164 1:155 7:30 2:164 1:30 2:164 8:30 1:164 ",
  "2:30 1:164 30:30 1:164 2:30 2:164 12:30 9:164 10:30 70:164 8:95 2:164 46:95 2:164 11:95 ",
  "27:164 72:161 8:164 83:132 13:164 16:20 57:109 7:164 10:29 86:164 8:125 88:164 34:0 14:164 ",
  "10:0 6:164 9:13 1:164 45:13 1:164 14:13 10:164 29:13 3:164 32:82 2:164 22:82 1:164 14:82 ",
  "73:164 7:41 1:164 2:41 1:164 44:41 3:164 1:41 1:164 2:41 1:164 9:41 8:164 10:41 6:164 6:40 ",
  "1:164 2:40 1:164 37:40 1:164 2:40 1:164 6:40 7:164 10:40 6:164 44:0 4:164 10:0 246:164 ",
  "25:79 7:164 17:61 1:164 41:61 3:164 29:61 85:164 1:75 15:164 50:140 13:164 1:140 922:158 ",
  "102:164 111:158 1:164 5:158 11:164 196:158 2636:164 99:26 13:164 1110:34 10:164 3995:34 ",
  "5:164 583:53 6841:164 58:0 1734:164 569:9 7:164 31:90 1:164 10:90 4:164 2:90 79:150 1:164 ",
  "10:150 6:164 30:10 2:164 6:10 10:164 70:54 10:164 10:54 1:164 7:54 1:164 21:54 5:164 19:54 ",
  "432:164 58:0 198:164 91:83 5:164 25:0 2:164 25:0 44:164 75:115 4:164 57:115 7:164 17:115 ",
  "64:164 1:141 1:100 2:48 1:65 11:164 7:48 9:164 6912:141 470:65 41:164 1:65 31:141 97:164 ",
  "115:141 8701:164 4:60 1:164 7:60 1:164 2:60 1:164 1:60 287:52 3:60 15:164 1:52 29:164 3:52 ",
  "2:164 1:60 14:164 4:60 8:164 396:100 2308:164 107:33 5:164 13:33 3:164 9:33 7:164 10:33 ",
  "2:164 4:33 4:163 3932:164 253:163 3:164 436:163 6:164 23:163 15:164 17:163 15:164 46:162 ",
  "2:164 23:162 9:164 116:163 60:164 246:163 10:164 39:163 2:164 62:163 3:162 17:163 8:162 ",
  "2:163 7:162 30:163 4:162 61:163 21:164 70:44 122:164 20:163 12:164 20:163 12:164 87:163 ",
  "9:164 25:163 135:164 85:163 1:164 71:163 1:164 2:163 2:164 1:163 2:164 2:163 2:164 4:163 ",
  "1:164 12:163 1:164 1:163 1:164 7:163 1:164 65:163 1:164 4:163 2:164 8:163 1:164 7:163 1:164 ",
  "28:163 1:164 4:163 1:164 5:163 1:164 1:163 3:164 7:163 1:164 340:163 2:164 292:163 2:164 ",
  "50:163 652:123 15:164 5:123 1:164 15:123 1104:164 31:70 6:164 6:70 213:164 7:39 1:164 17:39 ",
  "2:164 7:39 1:164 2:39 1:164 5:39 5:164 62:28 33:164 1:28 112:164 45:55 3:164 14:55 2:164 ",
  "10:55 4:164 2:55 320:164 31:151 17:164 58:156 5:164 1:156 464:164 42:94 214:164 43:0 4:164 ",
  "1:0 192:164 31:0 1:164 22:0 8:164 2:0 224:164 7:37 1:164 4:37 1:164 2:37 1:164 15:37 1:164 ",
  "197:84 2:164 16:84 41:164 76:1 4:164 10:1 4:164 2:1 785:164 68:163 76:164 61:163 194:164 ",
  "4:4 1:164 27:4 1:164 2:4 1:164 1:4 2:164 1:4 1:164 10:4 1:164 4:4 1:164 1:4 1:164 1:4 6:164 ",
  "1:4 4:164 1:4 1:164 1:4 1:164 1:4 1:164 3:4 1:164 2:4 1:164 1:4 2:164 1:4 1:164 1:4 1:164 ",
  "1:4 1:164 1:4 1:164 1:4 1:164 2:4 1:164 1:4 2:164 4:4 1:164 7:4 1:164 4:4 1:164 4:4 1:164 ",
  "1:4 1:164 10:4 1:164 17:4 5:164 3:4 1:164 5:4 1:164 17:4 52:164 2:4 270:164 44:163 4:164 ",
  "100:163 12:164 15:163 2:164 15:163 1:164 15:163 1:164 37:163 10:164 174:163 56:164 26:163 ",
  "1:52 2:163 13:164 44:163 4:164 9:163 7:164 2:163 14:164 6:163 154:164 985:163 3:164 17:163 ",
  "3:164 13:163 3:164 218:163 6:164 12:163 4:164 1:163 15:164 12:163 4:164 56:163 8:164 10:163 ",
  "6:164 40:163 8:164 30:163 2:164 12:163 4:164 2:163 14:164 9:163 39:164 344:163 8:164 14:163 ",
  "2:164 13:163 3:164 11:163 3:164 57:163 1:164 1:163 4:164 16:163 2:164 12:163 4:164 10:163 ",
  "7:164 147:163 1:164 103:163 1029:164 42720:48 32:164 4382:48 2:164 5774:48 2:164 7473:48 ",
  "15:164 622:48 2466:164 542:48 1506:164 4939:48 5:164 8490:48 707463:164 1:163 30:164 96:163 ",
  "128:164 240:162 196112:164 "]

end ApiContract.Letter
