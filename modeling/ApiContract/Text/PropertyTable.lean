/-!
# Properties of characters

Data of the Unicode standard, for the properties that do not follow from categories and scripts. A
table of runs lists consecutive code points from zero on. For a property that characters have or
lack, the runs without and with it take turns; elsewhere each run has a key behind a colon.
-/

namespace ApiContract.Letter

/-- Names of the properties that characters have or lack, in lower case without separators, with the
short name of the property. -/
def binaryNames : List (String × String) := [
  ("ahex", "ahex"), ("asciihexdigit", "ahex"), ("alpha", "alpha"), ("alphabetic", "alpha"),
  ("bidic", "bidic"), ("bidicontrol", "bidic"), ("bidim", "bidim"), ("bidimirrored", "bidim"),
  ("ci", "ci"), ("caseignorable", "ci"), ("cased", "cased"), ("cwcf", "cwcf"),
  ("changeswhencasefolded", "cwcf"), ("cwcm", "cwcm"), ("changeswhencasemapped", "cwcm"),
  ("cwl", "cwl"), ("changeswhenlowercased", "cwl"), ("cwt", "cwt"),
  ("changeswhentitlecased", "cwt"), ("cwu", "cwu"), ("changeswhenuppercased", "cwu"),
  ("dash", "dash"), ("di", "di"), ("defaultignorablecodepoint", "di"), ("dep", "dep"),
  ("deprecated", "dep"), ("dia", "dia"), ("diacritic", "dia"), ("emoji", "emoji"),
  ("ecomp", "ecomp"), ("emojicomponent", "ecomp"), ("emod", "emod"), ("emojimodifier", "emod"),
  ("ebase", "ebase"), ("emojimodifierbase", "ebase"), ("epres", "epres"),
  ("emojipresentation", "epres"), ("extpict", "extpict"), ("extendedpictographic", "extpict"),
  ("ext", "ext"), ("extender", "ext"), ("grbase", "grbase"), ("graphemebase", "grbase"),
  ("grext", "grext"), ("graphemeextend", "grext"), ("grlink", "grlink"),
  ("graphemelink", "grlink"), ("hex", "hex"), ("hexdigit", "hex"), ("hyphen", "hyphen"),
  ("idsb", "idsb"), ("idsbinaryoperator", "idsb"), ("idst", "idst"),
  ("idstrinaryoperator", "idst"), ("idsu", "idsu"), ("idsunaryoperator", "idsu"),
  ("idcompatmathcontinue", "idcompatmathcontinue"), ("idcompatmathstart", "idcompatmathstart"),
  ("idc", "idc"), ("idcontinue", "idc"), ("ids", "ids"), ("idstart", "ids"), ("ideo", "ideo"),
  ("ideographic", "ideo"), ("joinc", "joinc"), ("joincontrol", "joinc"), ("loe", "loe"),
  ("logicalorderexception", "loe"), ("lower", "lower"), ("lowercase", "lower"), ("math", "math"),
  ("mcm", "mcm"), ("modifiercombiningmark", "mcm"), ("nchar", "nchar"),
  ("noncharactercodepoint", "nchar"), ("oalpha", "oalpha"), ("otheralphabetic", "oalpha"),
  ("odi", "odi"), ("otherdefaultignorablecodepoint", "odi"), ("ogrext", "ogrext"),
  ("othergraphemeextend", "ogrext"), ("oidc", "oidc"), ("otheridcontinue", "oidc"),
  ("oids", "oids"), ("otheridstart", "oids"), ("olower", "olower"), ("otherlowercase", "olower"),
  ("omath", "omath"), ("othermath", "omath"), ("oupper", "oupper"), ("otheruppercase", "oupper"),
  ("patsyn", "patsyn"), ("patternsyntax", "patsyn"), ("patws", "patws"),
  ("patternwhitespace", "patws"), ("pcm", "pcm"), ("prependedconcatenationmark", "pcm"),
  ("qmark", "qmark"), ("quotationmark", "qmark"), ("radical", "radical"), ("ri", "ri"),
  ("regionalindicator", "ri"), ("sterm", "sterm"), ("sentenceterminal", "sterm"), ("sd", "sd"),
  ("softdotted", "sd"), ("term", "term"), ("terminalpunctuation", "term"), ("uideo", "uideo"),
  ("unifiedideograph", "uideo"), ("upper", "upper"), ("uppercase", "upper"), ("vs", "vs"),
  ("variationselector", "vs"), ("wspace", "wspace"), ("whitespace", "wspace"), ("space", "wspace"),
  ("xidc", "xidc"), ("xidcontinue", "xidc"), ("xids", "xids"), ("xidstart", "xids")]

/-- The properties with tables of their own, and the exceptions from rules for others. -/
def propertyRuns : List (String × List String) := [
  ("ahex", ["48 10 7 6 26 6 "]),
  ("bidic", ["1564 1 6641 2 26 5 55 4 "]),
  ("bidim", [
    "40 2 18 1 1 1 28 1 1 1 29 1 1 1 45 1 15 1 3710 4 1885 2 2460 2 10 2 54 2 14 2 177 1 192 ",
    "4 3 6 3 1 3 2 3 4 1 4 1 1 1 1 4 9 5 1 1 18 5 4 9 2 1 1 1 8 2 31 2 4 5 1 9 2 2 19 5 2 9 5 ",
    "2 2 4 24 2 16 8 4 20 2 7 2 1085 14 74 1 2 4 1 2 1 3 5 4 5 3 3 14 403 22 2 6 1 14 8 1 7 6 ",
    "3 1 4 5 1 2 2 5 4 1 1 3 2 2 10 6 2 2 12 19 1 4 2 1 1 1 2 1 1 4 5 2 6 3 24 2 11 2 4 4 1 2 ",
    "2 2 4 43 2 8 1 40 5 1 1 1 3 5 5 3 4 1 3 5 1 1 256 1 515 4 3 2 1 2 14 2 2 10 43 8 427 10 ",
    "2 8 52797 6 5 2 162 2 18 1 1 1 28 1 1 1 29 1 1 1 1 2 1 2 55159 1 57 1 57 1 57 1 57 1 "]),
  ("complexcontext", [
    "3585 58 5 15 50 2 1 1 1 5 1 24 1 1 1 23 2 5 1 1 1 7 13 4 288 64 16 64 10 6 1760 84 3 1 4 ",
    "2 370 30 2 5 11 44 4 26 16 1 3 2 64 63 1 29 35 14 36658 16 10 5 97 99 24 5 27680 27 2 15 ",
    "14 2 3 8 "]),
  ("dash", [
    "45 1 1372 1 51 1 3649 1 1029 1 2057 6 61 1 39 1 15 1 390 1 3076 1 2 1 31 2 4 1 28 1 446 ",
    "1 19 1 111 1 52624 2 37 1 10 1 169 1 3680 1 318 1 "]),
  ("dep", ["329 1 1321 1 2307 1 1 1 2089 2 2245 6 697 2 908502 1 "]),
  ("dia", [
    "94 1 1 1 71 1 6 1 4 1 2 2 503 159 1 8 5 6 17 2 4 1 9 2 253 5 209 1 55 17 1 27 1 1 1 2 1 ",
    "1 134 8 4 2 134 2 4 2 3 3 67 27 91 11 58 11 34 2 125 9 41 10 16 28 61 1 16 1 3 4 28 1 74 ",
    "1 16 1 110 1 16 1 110 1 16 1 47 3 60 1 16 1 7 1 119 1 110 1 16 1 110 1 16 1 109 2 16 1 ",
    "124 1 124 6 1 1 107 1 13 5 75 2 27 1 1 1 1 1 4 2 66 3 1 2 62 1 112 1 1 2 40 2 4 5 25 7 1 ",
    "1 10 2 705 3 948 2 179 11 9 1 347 3 313 8 2 1 48 15 2 11 104 1 15 1 38 9 54 2 138 2 64 6 ",
    "82 25 4 1 6 1 2 3 50 63 89 12 37 11 445 1 1 3 11 3 13 3 13 3 13 2 3312 3 317 1 506 6 105 ",
    "4 95 1 30066 1 12 2 1 1 28 2 82 2 14 34 102 3 109 2 202 1 27 18 57 4 36 1 95 1 12 1 36 1 ",
    "149 3 65 4 51 1 100 5 9 3 128 2 20272 1 769 16 270 1 1 1 47 1 45 2 67 1 764 1 1183 6 1 ",
    "42 1 9 810 2 571 6 469 3 70 11 49 4 192 1 41 1 72 2 120 2 62 1 76 1 9 3 104 2 178 2 81 1 ",
    "16 1 24 7 3 5 89 3 1 1 14 2 95 1 3 1 123 2 251 2 126 1 118 2 115 1 269 2 258 2 4 1 156 1 ",
    "83 1 18 1 81 1 421 1 258 1 1 2 81 1 450 1 5356 15 11481 1 2496 5 59 7 564 2 546 17 80 2 ",
    "16382 4 1 7 1 2 7937 46 2 23 544 3 3 6 8 8 2 7 30 4 3714 62 194 7 375 1 61 4 766 2 736 7 ",
    "109 3 1 3 "]),
  ("ebase", [
    "9757 1 219 1 16 4 117879 1 60 3 2 1 2 3 117 2 2 11 21 19 3 1 4 3 1 3 7 1 1 1 24 1 201 2 ",
    "4 1 21 1 4 2 174 3 3 5 83 1 16 3 9 1 11 1 575 1 2 1 8 8 6 1 9 10 2 3 56 1 61 2 1 2 1 1 ",
    "17 3 1 13 229 3 42 9 "]),
  ("ecomp", ["35 1 6 1 5 10 8147 1 213 1 56619 1 62422 26 507 5 1456 4 788076 96 "]),
  ("emod", ["127995 5 "]),
  ("emoji", [
    "35 1 6 1 5 10 111 1 4 1 8077 1 12 1 216 1 22 1 90 6 15 2 367 2 12 1 166 1 25 11 4 3 199 ",
    "1 231 2 10 1 9 1 58 4 1 5 9 1 2 1 2 2 2 1 4 1 2 1 1 2 2 1 3 1 3 2 8 3 5 1 1 1 5 12 11 2 ",
    "2 1 1 2 1 1 18 1 2 2 18 6 1 1 1 2 3 2 5 1 2 2 4 2 11 2 5 2 2 1 5 2 1 1 1 2 20 2 5 6 1 4 ",
    "2 1 4 1 2 1 2 6 1 1 2 1 1 1 1 1 6 1 3 1 6 1 10 2 15 1 2 1 4 1 1 1 4 3 1 1 11 2 48 3 9 1 ",
    "14 1 14 1 372 2 463 3 19 2 51 1 4 1 1242 1 12 1 601 1 1 1 114026 1 202 1 160 2 12 2 14 1 ",
    "2 10 75 26 1 2 23 1 20 1 2 9 21 2 174 34 2 112 2 2 1 3 2 83 2 3 1 263 1 63 11 6 1 24 7 2 ",
    "2 8 12 1 2 4 2 1 4 2 13 2 2 1 8 2 9 1 5 3 12 3 8 3 2 1 1 1 4 1 6 1 3 1 6 86 48 70 5 8 2 ",
    "3 4 10 3 1 1 2 3 1 2 10 227 12 4 1 283 47 1 10 1 185 112 13 3 10 5 56 7 15 2 11 6 9 "]),
  ("epres", [
    "8986 2 205 4 3 1 2 1 521 2 21 2 50 12 43 1 19 1 13 1 8 2 17 2 5 2 8 1 5 1 21 1 7 2 1 1 4 ",
    "1 2 1 7 1 4 2 28 1 35 1 1 1 4 3 1 1 61 3 24 1 14 1 859 2 51 1 4 1 115886 1 202 1 190 1 2 ",
    "10 75 26 1 1 24 1 20 1 2 5 1 3 21 2 174 33 12 9 1 70 1 22 12 43 4 5 12 17 3 1 3 71 1 1 1 ",
    "187 2 63 13 4 1 24 18 1 26 2 13 1 86 85 48 70 6 1 3 3 2 3 4 4 11 2 7 9 227 12 4 1 283 47 ",
    "1 10 1 185 112 13 3 10 5 56 7 15 2 11 6 9 "]),
  ("ext", [
    "183 1 536 2 878 1 441 1 858 1 752 1 127 1 2371 1 56 1 611 1 398 1 68 1 5001 1 43 5 103 2 ",
    "93 3 28438 1 1526 1 962 1 22 1 137 1 108 1 21 2 21627 1 2064 2 1483 1 27 1 4 1 1517 1 ",
    "116 2 498 3 1231 1 20649 2 508 3 669 2 1 1 29016 2 2054 3 "]),
  ("extpict", [
    "169 1 4 1 8077 1 12 1 216 1 22 1 90 6 15 2 367 2 12 1 95 1 70 1 25 11 4 3 199 1 231 2 10 ",
    "1 9 1 58 4 1 6 1 12 1 114 10 118 2 11 1 1 1 1 6 1 3 1 6 1 10 2 15 1 2 1 4 1 1 1 4 3 1 1 ",
    "11 5 45 3 9 1 14 1 14 1 372 2 463 3 19 2 51 1 4 1 1242 1 12 1 601 1 1 1 114022 256 13 3 ",
    "31 1 60 6 12 2 14 1 2 10 18 57 27 15 10 1 20 1 2 9 1 4 9 434 5 318 8 266 48 128 116 12 ",
    "85 43 12 4 56 8 10 6 40 8 30 82 12 47 1 10 1 441 256 1022 "]),
  ("gcbprepend", [
    "1536 6 215 1 49 1 384 2 80 1 1131 1 66414 1 15 1 244 2 525 1 1389 1 1 1 248 1 73 6 700 1 ",
    "443 1 "]),
  ("grlink", [
    "2381 1 127 1 127 1 127 1 127 1 127 1 127 1 127 1 109 2 16 1 124 1 111 1 127 1 201 1 180 ",
    "2 1753 2 30 1 157 1 653 1 227 1 101 2 70 2 4491 1 31366 1 37 1 151 1 142 1 108 1 309 1 ",
    "246 1 24145 1 1542 1 41 1 14 1 57 1 121 2 139 1 116 1 180 1 98 1 128 3 113 1 127 1 252 1 ",
    "127 1 118 1 116 1 269 1 259 2 161 1 83 1 18 1 81 1 421 1 260 2 81 1 425 2 16876 1 "]),
  ("hex", ["48 10 7 6 26 6 65193 10 7 6 26 6 "]),
  ("hyphen", ["45 1 127 1 1244 1 4731 1 2057 2 3589 1 739 1 52583 1 169 1 87 1 "]),
  ("idcompatmathcontinue", [
    "178 2 5 1 8118 1 3 11 1 15 371 1 4 1 22 1 111778 1 25 1 31 1 25 1 31 1 25 1 31 1 25 1 31 ",
    "1 25 1 "]),
  ("idcompatmathstart", [
    "8706 1 4 1 22 1 111778 1 25 1 31 1 25 1 31 1 25 1 31 1 25 1 31 1 25 1 "]),
  ("ideo", [
    "12294 2 25 9 14 3 965 6592 64 20992 22784 366 2 106 29962 1 27 6136 8 1238 41 10 9319 ",
    "396 19716 42720 32 4154 6 222 2 5762 14 7473 15 622 2466 542 1506 4939 5 4192 "]),
  ("idsb", ["12272 2 2 10 497 1 "]),
  ("idst", ["12274 2 "]),
  ("idsu", ["12286 2 "]),
  ("joinc", ["8204 2 "]),
  ("loe", ["3648 5 123 5 2800 3 2 1 37114 2 2 1 1 2 "]),
  ("mcm", ["1620 2 2 1 131 1 6 1 3 2 481 2 1 3 3 1 31 1 "]),
  ("nchar", [
    "64976 32 526 2 65534 2 65534 2 65534 2 65534 2 65534 2 65534 2 65534 2 65534 2 65534 2 ",
    "65534 2 65534 2 65534 2 65534 2 65534 2 65534 2 65534 2 "]),
  ("nospacing", ["4139 2 11 1 41 3 2 7 21 1 3 6 2 1 10 3 2500 1 1 2 36886 1 1 1 27810 2 "]),
  ("noxidc", ["890 1 11552 2 52161 6 406 2 116 1 1 1 1 1 1 1 1 1 1 1 1 1 1 1 "]),
  ("noxids", [
    "890 1 2744 1 127 1 8679 2 52161 6 406 2 116 1 1 1 1 1 1 1 1 1 1 1 1 1 1 1 287 2 "]),
  ("oaletter", [
    "706 4 12 6 6 2 5 7 1 1 1 17 602 3 1 1 43 1 104 1 283 1 40952 15 9 2 103 2 976 1 "]),
  ("oalpha", [
    "837 1 618 14 1 1 1 2 1 2 1 1 72 11 48 13 1 7 16 1 101 7 4 4 2 2 4 1 35 1 30 16 102 11 ",
    "101 2 3 9 1 3 1 4 106 1 60 12 3 7 6 20 54 2 2 15 1 2 5 3 10 2 29 3 58 7 2 2 2 2 10 1 10 ",
    "2 29 3 58 5 4 2 2 2 4 1 30 2 3 1 11 3 58 8 1 3 1 2 21 2 22 3 4 3 58 7 2 2 2 2 9 2 10 2 ",
    "30 1 59 5 3 3 1 3 10 1 40 5 57 7 1 3 1 3 8 2 11 2 29 3 58 7 1 3 1 3 8 2 11 2 15 1 12 4 ",
    "58 7 1 3 1 3 10 1 10 2 29 3 75 6 1 1 1 8 18 2 61 1 2 7 18 1 99 1 2 6 1 2 16 1 163 19 9 ",
    "11 1 36 110 12 1 1 2 4 23 4 4 3 1 3 2 7 3 4 13 12 1 1 10 4 1652 2 30 2 30 2 30 2 66 19 ",
    "188 2 34 1 118 12 4 9 222 5 57 10 2 20 74 2 11 3 49 5 48 15 60 3 30 9 2 2 57 11 50 19 ",
    "432 14 1729 52 2294 32 30836 8 34 2 354 1 8 1 23 5 88 2 50 16 1 1 57 1 38 5 28 12 45 4 ",
    "48 12 37 1 67 14 12 1 8 2 45 3 50 1 1 3 2 2 5 1 44 5 5 1 237 8 20275 1 2135 5 1670 3 1 2 ",
    "5 4 788 4 387 2 339 3 53 14 45 2 11 3 45 9 9 1 61 3 36 12 18 2 57 3 48 13 14 2 92 9 2 1 ",
    "6 1 2 1 157 10 23 4 58 7 2 2 2 2 10 1 10 2 84 9 1 1 2 1 1 4 1 2 103 13 1 3 106 18 237 7 ",
    "2 7 29 2 82 15 1 1 106 11 103 14 257 13 247 6 1 2 2 2 3 1 1 1 142 7 2 6 4 1 28 10 42 5 1 ",
    "4 18 11 46 14 407 8 1 7 83 22 1 14 122 6 3 1 1 2 1 3 1 1 3 1 66 5 1 2 1 4 348 4 9 2 1 1 ",
    "48 7 3 3 16861 17 3616 1 1 55 7 4 93 2 19628 1 9057 7 1 17 2 7 1 2 1 5 100 1 2231 1 2024 ",
    "26 6 26 6 26 "]),
  ("oclose", ["34 1 4 1 10035 6 1695 2 4 3 2 1 116842 3 "]),
  ("ocwcf", [
    "181 1 41 1 105 1 53 1 453 1 124 1 13 2 3 2 25 2 3 1 401 1 3696 6 2178 9 529 2 228 8 8 8 ",
    "8 8 10 3 2 1 10 3 2 1 42 3 2 1 35704 80 20288 7 12 5 "]),
  ("odi", ["847 1 3599 2 1619 2 2223 1 4350 1 52795 1 79 9 851975 1 1 30 96 128 240 3600 "]),
  ("ogrext", [
    "2494 1 24 1 358 1 24 1 102 1 24 1 234 1 18 2 103 1 24 1 119 1 15 1 3413 1 1238 1 4129 2 ",
    "53102 2 5022 1 24 1 96 1 9 1 2 1 1 3 5 1 224 1 12 1 241 1 896 1 47156 1 8 5 798381 96 "]),
  ("oidc", ["183 1 719 1 4065 9 1640 1 5920 1 52841 1 "]),
  ("oids", ["6277 2 2193 1 21 1 3948 2 "]),
  ("olower", [
    "170 1 15 1 501 9 7 2 30 5 96 1 52 1 3457 1 3119 63 13 1 34 37 689 1 13 1 16 13 211 16 ",
    "848 26 1938 2 31262 2 210 1 129 3 3 2 866 4 9 1 23574 1 2 3 1 42 1 9 55413 62 "]),
  ("omath", [
    "94 1 881 3 2 1 26 2 2 2 7200 1 27 3 11 1 32 4 24 2 14 2 65 13 4 1 3 2 4 5 18 1 4 1 2 10 ",
    "1 1 3 5 6 1 3 2 2 2 1 3 1 6 3 4 5 5 75 5 2 4 1 2 1 2 1 1 1 5 2 2 4 2 4 18 2 2 1 1 1 7 1 ",
    "1 6 2 290 4 168 2 1 1 24 1 17 1 445 2 12 9 5 5 5 2 2 2 3 5 14 1 1 1 2 6 24 2 57 1 1 1 29 ",
    "4 9 2 342 2 31 10 403 22 63 4 32 2 54371 1 1 1 4 1 211 1 1 1 54465 85 1 71 1 2 2 1 2 2 2 ",
    "4 1 12 1 1 1 7 1 65 1 4 2 8 1 7 1 28 1 4 1 5 1 1 3 7 1 340 2 25 1 25 1 31 1 25 1 31 1 25 ",
    "1 31 1 25 1 31 1 25 1 8 2 50 5632 4 1 27 1 2 1 1 2 1 1 10 1 4 1 1 1 1 6 1 4 1 1 1 1 1 1 ",
    "3 1 2 1 1 2 1 1 1 1 1 1 1 1 1 1 2 1 1 2 4 1 7 1 4 1 4 1 1 1 10 1 17 5 3 1 5 1 17 "]),
  ("oupper", ["8544 16 838 26 117856 26 6 26 6 26 "]),
  ("patsyn", [
    "33 15 10 7 26 4 1 1 26 4 34 7 1 1 1 2 1 1 1 2 4 1 4 1 3 1 23 1 31 1 7960 24 8 15 2 19 1 ",
    "10 305 720 160 630 30 1132 512 128 385 3 4 25 15 1 52493 2 261 2 "]),
  ("patws", ["9 5 18 1 100 1 8072 2 24 2 "]),
  ("pcm", ["1536 6 215 1 49 1 384 2 80 1 67546 1 15 1 "]),
  ("qmark", ["34 1 4 1 131 1 15 1 8028 8 25 2 3591 1 457 4 13 3 52769 4 189 1 4 1 90 2 "]),
  ("radical", ["11904 26 1 89 12 214 "]),
  ("ri", ["127462 26 "]),
  ("sd", [
    "105 2 196 1 281 1 30 1 52 1 20 1 320 1 98 1 1 1 6409 1 51 1 13 1 3 1 132 1 157 1 421 1 ",
    "214 2 2866 1 108453 2 50 2 50 2 50 2 50 2 50 2 50 2 50 2 50 2 50 2 50 2 50 2 50 2 2182 1 ",
    "305 2 26 1 "]),
  ("sterm", [
    "33 1 12 1 16 1 1353 1 147 3 180 1 43 3 246 1 61 1 1 1 3 2 293 2 1764 2 790 1 4 2 773 1 ",
    "198 2 204 1 5 1 314 2 354 4 174 2 2 2 29 2 188 2 65 2 956 2 9 3 3556 1 13 1 22 2 429 1 ",
    "29948 1 270 2 227 1 3 1 382 2 86 2 95 1 152 2 147 3 144 2 249 1 21094 1 3 2 169 1 12 1 ",
    "16 1 65 1 2804 2 1277 5 44 4 189 2 117 4 127 3 129 2 6 1 16 2 88 2 1 2 108 1 298 2 117 2 ",
    "373 2 5 15 105 2 249 3 517 1 1 1 251 2 87 2 420 2 692 2 74 2 19241 2 133 1 65 2 11 1 553 ",
    "2 296 1 19974 1 7656 1 "]),
  ("term", [
    "33 1 10 1 1 1 11 2 3 1 830 1 8 1 513 1 57 1 72 1 14 1 1 3 180 1 43 11 1 1 235 2 54 15 31 ",
    "1 261 2 1268 2 172 1 4 6 311 2 789 8 773 1 124 3 71 2 157 3 3 1 39 4 2 2 314 2 354 4 162 ",
    "2 10 2 1 3 29 3 187 5 62 2 956 2 9 3 3556 1 13 1 4 1 10 1 1 2 3 2 428 2 29947 2 269 3 ",
    "227 5 382 2 86 2 95 1 151 3 147 3 127 1 16 2 249 1 21092 3 1 4 169 1 10 1 1 1 11 2 3 1 ",
    "65 1 2 1 1082 1 48 1 1158 1 199 1 310 2 152 6 68 6 89 4 952 5 44 4 189 7 112 4 127 3 129 ",
    "2 6 1 16 2 88 5 108 1 298 2 117 3 12 2 358 4 3 15 105 2 249 3 517 1 1 1 251 2 87 2 4 2 ",
    "414 3 45 1 645 2 74 2 1323 5 17913 2 133 1 65 3 10 1 553 2 295 2 19974 1 7655 4 "]),
  ("uideo", [
    "13312 6592 64 20992 23054 2 1 1 1 2 10 1 1 1 1 2 2 3 67030 42720 32 4154 6 222 2 5762 14 ",
    "7473 15 622 4514 4939 5 4192 "]),
  ("vs", ["6155 3 1 1 58864 16 852720 240 "])]

/-- The ages, by their versions, each with its key. -/
def ageNames : List (String × Nat) := [
  ("1.1", 1), ("v11", 1), ("2.0", 2), ("v20", 2), ("2.1", 3), ("v21", 3), ("3.0", 4), ("v30", 4),
  ("3.1", 5), ("v31", 5), ("3.2", 6), ("v32", 6), ("4.0", 7), ("v40", 7), ("4.1", 8), ("v41", 8),
  ("5.0", 9), ("v50", 9), ("5.1", 10), ("v51", 10), ("5.2", 11), ("v52", 11), ("6.0", 12),
  ("v60", 12), ("6.1", 13), ("v61", 13), ("6.2", 14), ("v62", 14), ("6.3", 15), ("v63", 15),
  ("7.0", 16), ("v70", 16), ("8.0", 17), ("v80", 17), ("9.0", 18), ("v90", 18), ("10.0", 19),
  ("v100", 19), ("11.0", 20), ("v110", 20), ("12.0", 21), ("v120", 21), ("12.1", 22), ("v121", 22),
  ("13.0", 23), ("v130", 23), ("14.0", 24), ("v140", 24), ("15.0", 25), ("v150", 25), ("15.1", 26),
  ("v151", 26), ("16.0", 27), ("v160", 27)]

/-- Runs of characters of one age; zero is none. -/
def ageRuns : List String := [
  "502:1 4:4 30:1 8:4 1:6 1:7 18:4 3:7 11:8 14:9 89:1 5:4 2:7 47:1 1:4 10:1 5:4 17:7 70:1 9:4 ",
  "1:6 8:7 5:8 3:7 2:1 1:4 13:6 4:10 2:1 2:10 2:0 1:1 3:9 1:1 1:16 4:0 7:1 1:0 1:1 1:0 20:1 ",
  "1:0 44:1 1:10 7:1 1:4 2:6 1:1 1:4 1:1 1:4 1:1 1:4 1:1 1:4 18:1 2:5 1:6 5:7 4:8 1:4 12:1 1:4 ",
  "66:1 1:4 12:1 1:4 41:1 1:10 2:4 2:6 4:4 53:1 2:6 2:1 2:6 2:1 2:6 1:9 28:1 2:4 8:1 2:8 2:1 ",
  "6:9 16:6 4:9 16:10 2:11 2:12 8:16 1:0 38:1 2:0 7:1 1:20 39:1 1:20 1:1 1:4 2:0 2:16 1:13 1:0 ",
  "17:2 1:8 13:2 10:1 1:9 9:1 1:2 3:8 8:0 27:1 4:0 1:20 5:1 11:0 4:7 1:13 1:16 5:10 1:8 1:1 ",
  "9:7 5:10 1:1 1:15 1:24 1:8 1:1 1:12 26:1 5:10 19:1 3:4 3:7 6:8 1:12 14:1 2:6 72:1 2:4 5:1 ",
  "1:4 15:1 1:4 30:1 2:7 10:1 5:4 1:7 14:4 1:0 30:4 3:7 27:4 2:0 3:7 30:8 18:10 49:4 1:6 14:0 ",
  "59:9 2:0 3:20 46:11 2:0 15:11 1:0 28:12 2:0 1:12 1:0 11:19 5:0 31:24 1:0 2:24 5:0 1:27 8:24 ",
  "1:13 1:16 11:13 6:16 2:17 1:24 8:18 10:23 11:24 1:20 15:18 1:17 27:13 1:16 1:11 3:1 1:7 ",
  "53:1 2:12 18:1 1:11 1:12 5:1 1:11 2:12 25:1 2:10 5:12 1:16 2:11 2:9 1:8 2:9 1:16 3:1 1:0 ",
  "8:1 2:0 2:1 2:0 22:1 1:0 7:1 1:0 1:1 3:0 4:1 2:0 1:1 1:7 7:1 2:0 2:1 2:0 3:1 1:8 8:0 1:1 ",
  "4:0 2:1 1:0 5:1 2:0 21:1 1:11 2:19 1:20 2:0 1:7 1:1 1:7 1:0 6:1 4:0 2:1 2:0 22:1 1:0 7:1 ",
  "1:0 2:1 1:0 2:1 1:0 2:1 2:0 1:1 1:0 5:1 4:0 2:1 2:0 3:1 3:0 1:10 7:0 4:1 1:0 1:1 7:0 15:1 ",
  "1:10 1:20 10:0 3:1 1:0 7:1 1:7 1:1 1:0 3:1 1:0 22:1 1:0 7:1 1:0 2:1 1:0 5:1 2:0 10:1 1:0 ",
  "3:1 1:0 3:1 2:0 1:1 15:0 1:1 3:7 2:0 10:1 1:13 1:7 7:0 1:17 6:19 1:0 3:1 1:0 8:1 2:0 2:1 ",
  "2:0 22:1 1:0 7:1 1:0 2:1 1:0 1:7 4:1 2:0 8:1 1:10 2:0 2:1 2:0 3:1 7:0 1:23 2:1 4:0 2:1 1:0 ",
  "3:1 2:10 2:0 11:1 1:7 6:12 10:0 2:1 1:0 6:1 3:0 3:1 1:0 4:1 3:0 2:1 1:0 1:1 1:0 2:1 3:0 2:1 ",
  "3:0 3:1 3:0 8:1 1:8 3:1 4:0 5:1 3:0 3:1 1:0 4:1 2:0 1:10 6:0 1:1 14:0 1:8 12:1 8:7 5:0 1:16 ",
  "3:1 1:20 8:1 1:0 3:1 1:0 23:1 1:0 10:1 1:16 5:1 2:0 1:24 1:10 7:1 1:0 3:1 1:0 4:1 7:0 2:1 ",
  "1:0 2:10 1:17 2:0 1:24 2:0 2:1 2:10 2:0 10:1 7:0 1:21 8:10 1:18 1:16 2:1 1:20 8:1 1:0 3:1 ",
  "1:0 23:1 1:0 10:1 1:0 5:1 2:0 2:7 7:1 1:0 3:1 1:0 4:1 7:0 2:1 6:0 1:24 1:1 1:0 2:1 2:9 2:0 ",
  "10:1 1:0 2:9 1:25 12:0 1:19 1:16 2:1 1:23 8:1 1:0 3:1 1:0 23:1 1:12 16:1 1:12 2:19 1:10 6:1 ",
  "1:10 1:0 3:1 1:0 4:1 1:12 1:18 4:0 3:18 1:1 7:18 1:17 2:1 2:10 2:0 10:1 6:10 3:18 7:10 1:0 ",
  "1:23 2:4 1:0 18:4 3:0 24:4 1:0 9:4 1:0 1:4 2:0 7:4 3:0 1:4 4:0 6:4 1:0 1:4 1:0 8:4 6:0 ",
  "10:16 2:0 3:4 12:0 58:1 4:0 29:1 37:0 2:1 1:0 1:1 1:0 1:21 2:1 1:21 1:1 1:0 1:21 1:1 6:21 ",
  "4:1 1:21 7:1 1:21 3:1 1:0 1:1 1:0 1:1 2:21 2:1 1:21 13:1 1:21 3:1 2:0 5:1 1:0 1:1 1:0 6:1 ",
  "1:25 1:0 10:1 2:0 2:1 2:13 32:0 72:2 1:0 33:2 1:4 2:10 4:0 27:2 4:12 6:2 1:4 1:2 1:0 21:2 ",
  "3:4 7:2 1:4 1:2 3:4 1:0 15:4 1:0 1:10 1:4 2:8 3:10 4:11 2:12 37:0 34:4 1:10 5:4 1:10 2:4 ",
  "1:10 7:4 3:10 4:4 6:10 26:4 64:10 4:11 2:10 38:1 1:0 1:13 5:0 1:13 2:0 39:1 2:6 2:8 1:1 1:8 ",
  "3:13 90:1 5:11 68:1 5:11 82:1 6:11 7:4 1:8 63:4 1:8 1:4 1:0 4:4 2:0 7:4 1:0 1:4 1:0 4:4 2:0 ",
  "39:4 1:8 1:4 1:0 4:4 2:0 31:4 1:8 1:4 1:0 4:4 2:0 7:4 1:0 1:4 1:0 4:4 2:0 7:4 1:8 7:4 1:0 ",
  "23:4 1:8 31:4 1:8 1:4 1:0 4:4 2:0 7:4 1:8 39:4 1:8 19:4 2:0 2:12 2:8 28:4 3:0 26:8 6:0 85:4 ",
  "1:17 2:0 6:17 2:0 1:11 630:4 9:11 29:4 3:0 81:4 8:16 7:0 13:6 1:24 7:6 1:24 9:0 1:24 23:6 ",
  "9:0 20:6 12:0 13:6 1:0 3:6 1:0 2:6 12:0 93:4 1:7 2:0 10:4 6:0 10:7 6:0 15:4 1:24 10:4 6:0 ",
  "88:4 1:20 7:0 42:4 1:10 5:0 70:11 10:0 29:7 2:16 1:0 12:7 4:0 12:7 4:0 1:7 3:0 42:7 2:0 5:7 ",
  "11:0 42:8 2:11 4:0 26:8 6:0 10:8 1:11 3:0 2:8 32:7 28:8 2:0 2:8 63:11 1:0 29:11 2:0 11:11 ",
  "6:0 10:11 6:0 14:11 2:0 15:16 2:23 14:24 49:0 76:9 1:24 1:0 2:27 45:9 2:24 1:27 43:10 3:13 ",
  "12:10 6:13 52:12 8:0 4:12 56:10 3:0 15:10 3:0 51:10 9:18 2:27 5:0 43:20 2:0 3:20 8:13 8:0 ",
  "35:11 4:13 1:19 2:16 1:21 5:0 108:7 88:8 7:9 28:10 15:16 4:19 1:24 1:18 1:12 1:11 2:9 155:1 ",
  "1:2 4:10 90:1 6:10 22:1 2:0 6:1 2:0 38:1 2:0 6:1 2:0 8:1 1:0 1:1 1:0 1:1 1:0 1:1 1:0 31:1 ",
  "2:0 53:1 1:0 15:1 1:0 14:1 2:0 6:1 1:0 19:1 2:0 3:1 1:0 9:1 1:0 47:1 1:4 23:1 1:6 6:4 5:6 ",
  "2:7 2:8 1:6 7:8 5:6 1:10 1:0 4:15 7:1 1:6 2:0 27:1 1:0 5:8 8:12 3:0 11:1 1:2 1:3 3:4 2:6 ",
  "4:8 3:11 1:12 1:14 3:16 1:17 1:19 1:24 15:0 18:1 2:4 7:6 1:8 4:9 1:10 15:0 57:1 2:4 1:7 1:8 ",
  "15:6 1:8 2:9 1:10 3:11 48:1 1:4 1:9 4:10 1:11 2:17 4:0 91:1 9:4 12:6 242:1 14:6 1:1 1:4 ",
  "121:1 1:4 1:6 30:4 52:6 2:7 11:8 12:9 1:11 11:12 7:16 4:18 1:19 37:1 2:4 3:27 22:0 11:1 ",
  "21:0 139:1 20:6 1:7 150:1 10:6 80:1 8:4 8:6 20:1 2:7 2:6 1:8 1:4 86:1 2:4 12:6 2:8 10:6 8:7 ",
  "11:8 1:10 2:11 2:7 16:8 1:9 10:10 3:11 4:10 10:11 1:12 19:11 1:12 1:11 4:12 24:11 1:16 4:1 ",
  "1:12 4:1 2:12 28:1 1:12 35:1 1:12 1:1 1:12 4:1 3:12 1:1 1:11 7:1 2:12 7:1 14:6 31:1 3:12 ",
  "24:1 1:12 14:1 1:12 7:8 4:9 1:13 1:10 1:13 2:12 28:6 4:10 16:6 256:4 512:6 14:7 6:8 7:9 ",
  "5:10 4:9 41:10 3:16 5:10 5:11 26:16 2:0 32:16 1:0 1:23 34:16 3:20 12:16 1:21 8:16 1:19 ",
  "25:20 4:17 15:20 1:21 47:8 1:24 47:8 1:24 13:9 3:10 1:11 3:10 4:9 6:10 2:11 107:8 7:11 2:13 ",
  "5:0 45:8 1:0 1:13 5:0 1:13 2:0 54:8 2:13 7:0 1:8 1:12 14:0 1:12 23:8 9:0 7:8 1:0 7:8 1:0 ",
  "7:8 1:0 7:8 1:0 7:8 1:0 7:8 1:0 7:8 1:0 7:8 1:0 32:10 24:8 4:10 2:8 19:10 1:11 10:13 7:16 ",
  "2:18 5:19 5:20 1:21 3:23 11:24 34:0 26:4 1:0 89:4 12:0 214:4 26:0 12:4 4:26 56:1 3:4 3:6 ",
  "1:4 1:1 1:0 84:1 2:6 2:0 6:1 2:6 94:1 1:6 5:0 40:1 1:10 1:19 1:20 1:0 94:1 1:0 16:1 24:4 ",
  "3:12 5:23 16:8 20:10 2:27 9:0 1:26 16:6 29:1 2:7 1:0 36:1 12:11 1:7 15:6 28:1 2:7 1:8 50:1 ",
  "15:6 12:1 4:7 47:1 1:22 119:1 4:7 99:1 2:7 31:1 1:7 6582:4 10:23 64:7 20902:1 22:8 8:10 ",
  "8:11 1:13 9:17 21:19 5:20 13:23 3:24 1165:4 3:0 18:4 2:6 16:4 1:6 12:4 1:6 3:4 1:6 1:4 9:0 ",
  "48:11 300:10 20:0 32:10 2:12 18:10 8:13 28:10 6:16 1:17 1:13 88:11 8:0 23:8 4:9 5:10 2:9 ",
  "107:10 2:12 1:17 2:12 2:13 12:16 10:12 1:13 3:16 1:18 1:20 2:16 6:17 2:20 6:21 2:24 5:21 ",
  "4:23 3:27 2:0 2:24 1:0 1:24 1:0 5:24 3:27 21:0 3:24 2:23 1:16 2:13 1:12 5:10 44:8 1:23 3:0 ",
  "10:11 6:0 56:9 8:0 69:10 1:18 8:0 12:10 6:0 28:11 2:17 2:20 84:10 11:0 1:10 29:11 3:0 78:11 ",
  "1:0 11:11 4:0 2:11 31:16 1:0 55:10 9:0 14:10 2:0 10:10 2:0 4:10 28:11 4:16 67:11 24:0 5:11 ",
  "23:13 10:0 6:12 2:0 6:12 2:0 6:12 9:0 7:12 1:0 7:12 1:0 48:16 4:17 2:16 2:21 4:23 4:0 80:17 ",
  "46:11 2:0 10:11 6:0 11172:2 12:0 23:11 4:0 49:11 4:0 2048:2 6702:1 2:13 59:6 3:11 2:0 106:8 ",
  "38:0 7:1 12:0 5:1 5:0 1:4 25:1 1:0 5:1 1:0 1:1 1:0 2:1 1:0 2:1 1:0 108:1 16:12 1:24 16:0 ",
  "365:1 16:24 64:1 2:0 54:1 7:0 1:24 32:5 12:1 1:6 1:7 2:24 16:6 10:8 6:0 4:1 3:10 7:16 2:17 ",
  "21:1 2:6 2:7 10:1 1:0 19:1 1:0 4:1 4:0 3:1 1:6 1:1 1:0 135:1 2:0 1:1 1:0 94:1 2:6 94:1 3:0 ",
  "6:1 2:0 6:1 2:0 6:1 2:0 3:1 3:0 7:1 1:0 7:1 10:0 3:4 1:3 3:1 12:7 1:0 26:7 1:0 19:7 1:0 2:7 ",
  "1:0 15:7 2:0 14:7 34:0 123:7 5:0 3:7 4:0 45:7 3:0 9:7 75:8 2:16 2:18 1:0 12:10 1:23 3:0 ",
  "1:16 47:0 46:10 130:0 29:10 3:0 49:10 15:0 28:16 4:0 31:5 1:16 4:5 9:0 3:19 27:5 5:0 43:16 ",
  "5:0 30:7 1:0 1:7 36:8 4:0 14:8 42:0 38:5 2:7 38:5 80:7 2:0 10:7 6:0 36:18 4:0 36:18 4:0 ",
  "40:16 8:0 52:16 11:0 1:16 11:24 1:0 15:24 1:0 7:24 1:0 2:24 1:0 11:24 1:0 15:24 1:0 7:24 ",
  "1:0 2:24 3:0 52:27 12:0 311:16 9:0 22:16 10:0 8:16 24:0 6:24 1:0 42:24 1:0 9:24 69:0 6:7 ",
  "2:0 1:7 1:0 44:7 1:0 2:7 3:0 1:7 2:0 1:7 22:11 1:0 9:11 63:16 8:0 9:16 48:0 19:17 1:0 2:17 ",
  "5:0 5:17 26:9 2:11 3:0 1:9 26:10 5:0 1:10 64:0 56:13 4:0 2:17 2:13 16:17 2:0 46:17 4:8 1:0 ",
  "2:8 5:0 8:8 1:0 3:8 1:0 27:8 2:20 2:0 3:8 4:0 9:8 1:20 7:0 9:8 7:0 32:11 32:16 32:0 39:16 ",
  "4:0 12:16 9:0 54:11 3:0 29:11 2:0 27:11 5:0 8:11 18:16 7:0 4:16 12:0 7:16 80:0 73:11 55:0 ",
  "51:17 13:0 51:17 7:0 6:17 40:20 8:0 10:20 6:0 38:27 3:0 29:27 8:0 2:27 208:0 31:11 1:0 ",
  "42:23 1:0 3:23 2:0 2:23 16:0 3:27 55:0 1:27 3:25 40:20 8:0 42:20 22:0 26:24 38:0 28:23 20:0 ",
  "23:21 9:0 78:12 4:0 30:12 6:24 9:0 1:16 66:11 1:24 10:0 1:20 2:0 25:13 7:0 10:13 6:0 53:13 ",
  "1:0 14:13 3:20 1:23 8:0 39:16 9:0 73:13 4:17 1:16 2:23 10:13 1:16 5:17 1:0 20:16 11:0 18:16 ",
  "1:0 43:16 1:18 3:25 62:0 7:17 1:0 1:17 1:0 4:17 1:0 15:17 1:0 11:17 6:0 59:16 5:0 10:16 6:0 ",
  "1:17 3:16 1:0 8:16 2:0 2:16 2:0 22:16 1:0 7:16 1:0 2:16 1:0 5:16 1:0 1:20 9:16 2:0 2:16 2:0 ",
  "3:16 2:0 1:17 6:0 1:16 5:0 7:16 2:0 7:16 3:0 5:16 11:0 10:27 1:0 1:27 2:0 1:27 1:0 38:27 ",
  "1:0 10:27 1:0 1:27 2:0 1:27 1:0 4:27 1:0 10:27 1:0 2:27 8:0 2:27 29:0 90:18 1:23 1:18 1:0 ",
  "1:18 1:20 1:21 2:23 30:0 72:16 8:0 10:16 166:0 54:16 2:0 18:16 20:17 34:0 69:16 11:0 10:16 ",
  "6:0 13:18 19:0 56:13 1:21 1:24 6:0 10:13 6:0 20:27 28:0 26:17 1:20 2:0 15:17 4:0 16:17 7:24 ",
  "185:0 60:20 100:0 83:16 12:0 1:16 7:23 2:0 1:23 2:0 8:23 1:0 2:23 1:0 30:23 1:0 2:23 2:0 ",
  "12:23 9:0 10:23 70:0 8:21 2:0 46:21 2:0 11:21 27:0 72:19 8:0 52:19 2:21 23:19 1:20 5:19 ",
  "13:0 16:24 57:16 7:0 10:25 182:0 34:27 14:0 10:27 6:0 9:18 1:0 45:18 1:0 14:18 10:0 29:18 ",
  "3:0 32:18 2:0 22:18 1:0 14:18 73:0 7:19 1:0 2:19 1:0 44:19 3:0 1:19 1:0 2:19 1:0 9:19 8:0 ",
  "10:19 6:0 6:20 1:0 2:20 1:0 37:20 1:0 2:20 1:0 6:20 7:0 10:20 310:0 25:20 7:0 17:25 1:0 ",
  "41:25 3:0 28:25 1:27 85:0 1:23 15:0 50:21 13:0 1:21 879:9 42:16 1:17 102:0 99:9 12:16 1:0 ",
  "4:9 1:16 11:0 196:17 2636:0 99:24 13:0 1071:11 1:25 9:21 29:25 10:0 3995:27 5:0 583:17 ",
  "6841:0 58:27 1734:0 569:12 7:0 31:16 1:0 10:16 4:0 2:16 79:24 1:0 10:24 6:0 30:16 2:0 6:16 ",
  "10:0 70:16 10:0 10:16 1:0 7:16 1:0 21:16 5:0 19:16 432:0 58:27 198:0 91:20 101:0 69:13 6:21 ",
  "4:0 1:21 47:13 9:21 7:0 17:13 64:0 1:18 1:19 2:21 1:23 11:0 2:23 14:0 6125:18 5:20 6:21 8:0 ",
  "755:18 483:23 41:0 1:27 9:23 8935:0 4:24 1:0 7:24 1:0 2:24 1:0 2:12 285:19 4:24 15:0 1:25 ",
  "29:0 3:21 2:0 1:25 14:0 4:21 8:0 396:19 2308:0 107:16 5:0 13:16 3:0 9:16 7:0 10:16 2:0 8:16 ",
  "3932:0 250:27 6:0 436:27 76:0 46:24 2:0 23:24 9:0 116:24 60:0 246:5 10:0 39:5 2:0 1:10 ",
  "180:5 11:17 2:24 21:0 70:8 122:0 20:25 12:0 20:20 12:0 87:7 9:0 18:9 7:20 135:0 85:5 1:0 ",
  "71:5 1:0 2:5 2:0 1:5 2:0 2:5 2:0 4:5 1:0 12:5 1:0 1:5 1:0 4:5 1:7 2:5 1:0 65:5 1:0 4:5 2:0 ",
  "8:5 1:0 7:5 1:0 28:5 1:0 4:5 1:0 5:5 1:0 1:5 3:0 7:5 1:0 338:5 2:8 2:0 290:5 2:9 2:0 50:5 ",
  "652:17 15:0 5:17 1:0 15:17 1104:0 31:24 6:0 6:25 213:0 7:18 1:0 17:18 2:0 7:18 1:0 2:18 1:0 ",
  "5:18 5:0 62:25 33:0 1:25 112:0 45:21 3:0 14:21 2:0 10:21 4:0 2:21 320:0 31:24 17:0 58:21 ",
  "5:0 1:21 464:0 42:25 214:0 43:27 4:0 1:27 480:0 7:24 1:0 4:24 1:0 2:24 1:0 15:24 1:0 197:16 ",
  "2:0 16:16 41:0 75:18 1:21 4:0 10:18 4:0 2:18 785:0 68:20 76:0 61:21 194:0 4:13 1:0 27:13 ",
  "1:0 2:13 1:0 1:13 2:0 1:13 1:0 10:13 1:0 4:13 1:0 1:13 1:0 1:13 6:0 1:13 4:0 1:13 1:0 1:13 ",
  "1:0 1:13 1:0 3:13 1:0 2:13 1:0 1:13 2:0 1:13 1:0 1:13 1:0 1:13 1:0 1:13 1:0 1:13 1:0 2:13 ",
  "1:0 1:13 2:0 4:13 1:0 7:13 1:0 4:13 1:0 4:13 1:0 1:13 1:0 10:13 1:0 17:13 5:0 3:13 1:0 5:13 ",
  "1:0 17:13 52:0 2:13 270:0 44:10 4:0 100:10 12:0 15:12 2:0 14:12 1:16 1:0 15:12 1:0 15:12 ",
  "22:16 10:0 11:11 2:16 3:23 31:11 1:20 1:12 1:11 11:12 1:11 1:12 1:11 2:12 1:11 3:12 1:11 ",
  "3:12 5:11 8:12 1:11 7:12 1:11 10:12 2:13 1:21 3:23 9:12 1:11 1:12 2:11 2:12 1:11 10:12 4:11 ",
  "2:12 1:11 10:12 18:18 1:23 56:0 26:12 1:11 2:12 13:0 34:11 9:12 1:18 4:0 9:11 7:0 2:12 14:0 ",
  "6:19 154:0 33:12 12:16 3:17 6:12 1:16 70:12 1:16 2:17 20:12 12:16 37:12 1:16 5:12 4:16 5:17 ",
  "12:16 17:12 7:16 8:17 63:12 1:16 1:12 1:16 182:12 1:16 4:12 2:16 1:17 62:12 2:16 4:13 7:16 ",
  "5:17 24:12 18:16 1:18 41:16 1:18 86:16 5:12 1:13 16:12 1:13 3:12 1:13 1:12 1:13 1:12 1:13 ",
  "1:12 1:13 3:12 1:13 6:12 2:13 4:12 1:13 1:12 2:13 4:12 1:13 12:12 2:16 2:17 11:12 48:16 ",
  "70:12 10:16 1:17 2:18 2:19 1:21 2:23 4:0 1:25 3:24 13:16 3:0 4:16 3:18 2:19 1:20 1:21 2:23 ",
  "3:0 116:12 3:25 4:0 5:25 85:16 4:20 1:25 6:0 12:21 4:0 1:24 15:0 12:16 4:0 56:16 8:0 10:16 ",
  "6:0 40:16 8:0 30:16 2:0 2:23 10:27 4:0 2:27 62:0 12:19 1:23 3:21 9:17 6:18 1:19 8:18 8:19 ",
  "1:18 2:19 12:18 1:21 12:18 1:19 3:20 15:18 13:19 5:20 1:21 1:23 4:20 2:23 1:24 1:20 1:21 ",
  "4:20 5:17 13:18 6:19 11:20 2:23 6:21 3:23 2:21 10:20 6:21 1:17 2:20 8:21 1:23 1:24 3:21 ",
  "23:19 25:20 84:21 12:0 14:20 2:0 4:21 1:23 3:25 3:21 2:24 3:0 3:21 4:23 2:25 1:27 5:0 1:27 ",
  "6:21 19:23 4:24 3:25 7:23 4:24 3:25 1:27 1:25 3:23 3:24 1:27 7:0 2:25 7:23 3:24 2:25 1:27 ",
  "2:0 1:27 8:24 1:25 1:27 6:0 7:24 2:25 7:0 147:23 1:0 55:23 37:27 10:23 1028:0 2:2 42711:5 ",
  "7:23 2:24 32:0 4149:11 4:24 1:25 6:0 222:12 2:0 5762:17 14:0 7473:19 15:0 622:26 2466:0 ",
  "542:5 1504:0 2:2 4939:23 5:0 4192:25 56398:0 2:2 65534:0 2:2 65534:0 2:2 65534:0 2:2 ",
  "65534:0 2:2 65534:0 2:2 65534:0 2:2 65534:0 2:2 65534:0 2:2 65534:0 2:2 65534:0 2:2 1:0 1:5 ",
  "30:0 96:5 128:0 240:7 65038:0 131074:2 "]

/-- The scripts that characters with several, or with another one than their own, are used in. -/
def extensions : List (List Nat) := [
  [44], [70], [28, 110], [28, 39], [28, 70], [4, 99, 118, 135, 146, 159], [4, 135, 146],
  [1, 4, 99, 118, 135, 146, 159], [1, 4, 80, 81, 107, 113, 118, 129, 135], [4, 135], [4, 146, 159],
  [4, 118], [12, 29, 43, 45, 46, 66, 70, 87, 104, 125, 140, 143, 149],
  [12, 29, 43, 45, 46, 66, 70, 87, 104, 140, 143, 149],
  [12, 29, 31, 40, 41, 43, 45, 46, 66, 78, 87, 95, 104, 127, 128, 134, 137, 140, 143, 149],
  [12, 29, 31, 40, 41, 43, 45, 46, 66, 72, 78, 87, 95, 104, 127, 128, 134, 137, 140, 143, 149],
  [29, 31, 67, 78], [12, 19, 134], [46, 92], [45, 64], [43, 140], [66, 95], [19, 93, 138],
  [38, 70], [18, 49, 136, 145], [89, 111], [12, 29, 43, 66], [29], [29, 43], [12, 29], [29, 125],
  [29, 66, 87, 104, 140, 143], [29, 95], [12, 29, 43, 66, 95, 104, 143, 149], [29, 43, 66], [12],
  [95], [28, 135], [135], [70, 89], [29, 43, 70], [14, 47, 48, 52, 60, 160], [14, 47, 48, 52, 60],
  [48], [14, 48], [52, 60], [48, 52, 60], [48, 70],
  [29, 31, 45, 46, 64, 66, 67, 78, 87, 88, 95, 127, 137, 149],
  [29, 31, 45, 46, 64, 66, 67, 78, 88, 95, 127, 137, 149],
  [29, 31, 45, 46, 64, 67, 78, 88, 127, 137, 149], [29, 140], [59, 70, 93], [17, 58], [4, 99],
  [4, 146], [26, 27, 74], [27, 74], [27, 73, 74], [4, 25], [81, 107], [33]]

/-- Runs of characters with the same scripts, keyed from one on; the key zero is the own script. -/
def extensionRuns : List String := [
  "834:0 1:1 2:0 1:1 29:0 13:2 275:0 1:3 1:4 2:5 1:4 388:0 1:6 14:0 1:6 1:7 2:0 1:8 32:0 1:9 ",
  "10:0 11:10 10:0 10:11 6:0 1:10 99:0 1:12 636:0 1:13 1:14 17:0 1:15 1:16 10:17 118:0 10:18 ",
  "118:0 10:19 118:0 10:20 246:0 14:21 242:0 10:22 848:0 10:23 177:0 1:24 1593:0 2:25 203:0 ",
  "2:26 1:0 1:26 1226:0 1:27 1:28 1:27 1:29 1:28 2:30 1:31 1:30 1:31 1:32 1:28 2:31 2:28 1:31 ",
  "1:30 7:28 1:33 1:30 2:28 1:30 4:28 1:34 1:29 1:35 2:30 1:36 2:29 1:37 197:0 2:1 54:0 1:38 ",
  "1:0 1:39 564:0 1:40 192:0 1:41 3410:0 1:4 445:0 2:42 1:43 2:0 1:44 1:0 10:42 1:0 1:43 8:42 ",
  "4:43 10:0 4:45 2:0 1:43 5:46 1:0 1:43 4:0 2:47 2:44 89:0 4:46 3:0 1:46 90:0 1:42 1:46 147:0 ",
  "16:44 32:0 36:44 60:0 40:44 56:0 49:44 15:0 12:44 51:0 1:44 88:0 25:44 10:0 5:44 96:0 31:44 ",
  "29296:0 1:4 144:0 8:48 296:0 3:49 3:50 4:51 183:0 1:30 1:0 1:52 58:0 1:53 160:0 1:54 ",
  "21358:0 2:55 178:0 1:56 10:0 1:56 71:0 2:43 282:0 5:42 10:0 1:46 45:0 2:46 352:0 2:57 1:58 ",
  "4:0 45:59 3:0 9:58 416:0 28:60 2038:0 1:61 2062:0 1:21 1:0 1:21 55:0 2:21 3219:0 2:21 1:0 ",
  "1:21 40140:0 4:62 5820:0 18:44 7902:0 2:44 986542:0 "]

end ApiContract.Letter
