import AttrGrammar.Text.Unicode.Table

/-!
The scripts of characters.

A character that is used with other scripts than its own, or with several, has a set of them.
-/

namespace AttrGrammar.Text.Unicode

/-- The names of the scripts. -/
def scriptNames : List (List String) := [
  ["adlm", "adlam"], ["aghb", "caucasianalbanian"], ["ahom"], ["arab", "arabic"],
  ["armi", "imperialaramaic"], ["armn", "armenian"], ["avst", "avestan"], ["bali", "balinese"],
  ["bamu", "bamum"], ["bass", "bassavah"], ["batk", "batak"], ["beng", "bengali"],
  ["bhks", "bhaiksuki"], ["bopo", "bopomofo"], ["brah", "brahmi"], ["brai", "braille"],
  ["bugi", "buginese"], ["buhd", "buhid"], ["cakm", "chakma"], ["cans", "canadianaboriginal"],
  ["cari", "carian"], ["cham"], ["cher", "cherokee"], ["chrs", "chorasmian"],
  ["copt", "coptic", "qaac"], ["cpmn", "cyprominoan"], ["cprt", "cypriot"], ["cyrl", "cyrillic"],
  ["deva", "devanagari"], ["diak", "divesakuru"], ["dogr", "dogra"], ["dsrt", "deseret"],
  ["dupl", "duployan"], ["egyp", "egyptianhieroglyphs"], ["elba", "elbasan"], ["elym", "elymaic"],
  ["ethi", "ethiopic"], ["gara", "garay"], ["geor", "georgian"], ["glag", "glagolitic"],
  ["gong", "gunjalagondi"], ["gonm", "masaramgondi"], ["goth", "gothic"], ["gran", "grantha"],
  ["grek", "greek"], ["gujr", "gujarati"], ["gukh", "gurungkhema"], ["guru", "gurmukhi"],
  ["hang", "hangul"], ["hani", "han"], ["hano", "hanunoo"], ["hatr", "hatran"], ["hebr", "hebrew"],
  ["hira", "hiragana"], ["hluw", "anatolianhieroglyphs"], ["hmng", "pahawhhmong"],
  ["hmnp", "nyiakengpuachuehmong"], ["hung", "oldhungarian"], ["ital", "olditalic"],
  ["java", "javanese"], ["kali", "kayahli"], ["kana", "katakana"], ["kawi"],
  ["khar", "kharoshthi"], ["khmr", "khmer"], ["khoj", "khojki"], ["kits", "khitansmallscript"],
  ["knda", "kannada"], ["krai", "kiratrai"], ["kthi", "kaithi"], ["lana", "taitham"],
  ["laoo", "lao"], ["latn", "latin"], ["lepc", "lepcha"], ["limb", "limbu"], ["lina", "lineara"],
  ["linb", "linearb"], ["lisu"], ["lyci", "lycian"], ["lydi", "lydian"], ["mahj", "mahajani"],
  ["maka", "makasar"], ["mand", "mandaic"], ["mani", "manichaean"], ["marc", "marchen"],
  ["medf", "medefaidrin"], ["mend", "mendekikakui"], ["merc", "meroiticcursive"],
  ["mero", "meroitichieroglyphs"], ["mlym", "malayalam"], ["modi"], ["mong", "mongolian"],
  ["mroo", "mro"], ["mtei", "meeteimayek"], ["mult", "multani"], ["mymr", "myanmar"],
  ["nagm", "nagmundari"], ["nand", "nandinagari"], ["narb", "oldnortharabian"],
  ["nbat", "nabataean"], ["newa"], ["nkoo", "nko"], ["nshu", "nushu"], ["ogam", "ogham"],
  ["olck", "olchiki"], ["onao", "olonal"], ["orkh", "oldturkic"], ["orya", "oriya"],
  ["osge", "osage"], ["osma", "osmanya"], ["ougr", "olduyghur"], ["palm", "palmyrene"],
  ["pauc", "paucinhau"], ["perm", "oldpermic"], ["phag", "phagspa"],
  ["phli", "inscriptionalpahlavi"], ["phlp", "psalterpahlavi"], ["phnx", "phoenician"],
  ["plrd", "miao"], ["prti", "inscriptionalparthian"], ["rjng", "rejang"],
  ["rohg", "hanifirohingya"], ["runr", "runic"], ["samr", "samaritan"],
  ["sarb", "oldsoutharabian"], ["saur", "saurashtra"], ["sgnw", "signwriting"],
  ["shaw", "shavian"], ["shrd", "sharada"], ["sidd", "siddham"], ["sind", "khudawadi"],
  ["sinh", "sinhala"], ["sogd", "sogdian"], ["sogo", "oldsogdian"], ["sora", "sorasompeng"],
  ["soyo", "soyombo"], ["sund", "sundanese"], ["sunu", "sunuwar"], ["sylo", "sylotinagri"],
  ["syrc", "syriac"], ["tagb", "tagbanwa"], ["takr", "takri"], ["tale", "taile"],
  ["talu", "newtailue"], ["taml", "tamil"], ["tang", "tangut"], ["tavt", "taiviet"],
  ["telu", "telugu"], ["tfng", "tifinagh"], ["tglg", "tagalog"], ["thaa", "thaana"], ["thai"],
  ["tibt", "tibetan"], ["tirh", "tirhuta"], ["tnsa", "tangsa"], ["todr", "todhri"], ["toto"],
  ["tutg", "tulutigalari"], ["ugar", "ugaritic"], ["vaii", "vai"], ["vith", "vithkuqi"],
  ["wara", "warangciti"], ["wcho", "wancho"], ["xpeo", "oldpersian"], ["xsux", "cuneiform"],
  ["yezi", "yezidi"], ["yiii", "yi"], ["zanb", "zanabazarsquare"], ["zinh", "inherited", "qaai"],
  ["zyyy", "common"]]

/-- The scripts of all characters in order; characters without one have the number behind the last
script. -/
def scripts : Runs := runsOf [
  "Y1b9QY86b9QY8XFb91Y8Fb91Y85b9NY81b9VY81b9k1Y8X7b95Y85b92DKb9ZGb84XC1b93XC2bA4XC1b91XC4bA1XC1",
  "b91XC1b93XC1bA1XC1bAKXC1bAXVXCEOGXCa5R2b8b9R1bAX652bAXI52bA351bAXNXK8bARXK4bA6XKBbA531b9631b",
  "9E31b9331b9X031b9A3Bb8Q31b8ZC31b9X23EaB1bAXSaB2bA3aBXG3XIaMEbAXRZ52bA3Z5XEZR2bAFZR1bASYI2bA1",
  "YI1bABaB5bAV31bA235bAYB31b9T3YHS4b8FS2b9QS4B1bA8B2bA2B2bAMB1bA7B1bA1B3bA4B2bA9B2bA2B2bA4B8bA",
  "1B4bA2B1bA5B2bAPB2bA3XF1bA6XF4bA2XF2bAMXF1bA7XF1bA2XF1bA2XF1bA2XF2bA1XF1bA5XF4bA2XF2bA3XF3bA",
  "1XF7bA4XF1bA1XF7bAHXFAbA3XD1bA9XD1bA3XD1bAMXD1bA7XD1bA2XD1bA5XD2bAAXD1bA3XD1bA3XD2bA1XDFbA4X",
  "D2bACXD7bA7XD1bA3ZB1bA8ZB2bA2ZB2bAMZB1bA7ZB1bA2ZB1bA5ZB2bA9ZB2bA2ZB2bA3ZB7bA3ZB4bA2ZB1bA5ZB2",
  "bAIZBAbA2aG1bA6aG3bA3aG1bA4aG3bA2aG1bA1aG1bA2aG3bA2aG3bA3aG3bACaG4bA5aG3bA3aG1bA4aG2bA1aG6bA",
  "1aGEbALaG5bADaJ1bA3aJ1bANaJ1bAGaJ2bA9aJ1bA3aJ1bA4aJ7bA2aJ1bA3aJ2bA1aJ2bA4aJ2bAAaJ7bA9aJDY31b",
  "A3Y31bANY31bAAY31bA5Y32bA9Y31bA3Y31bA4Y37bA2Y36bA2Y31bA4Y32bAAY31bA3Y3CbADYP1bA3YP1bAXJYP1bA",
  "3YP1bA6YP4bAGYP2bAQYP1bA3a31bAIa33bAOa31bA9a31bA1a32bA7a33bA1a34bA6a31bA1a31bA8a36bAAa32bA3a",
  "3CbAXQaN4bA1b9SaNX5bA2Y71bA1Y71bA5Y71bAOY71bA1Y71bANY72bA5Y71bA1Y71bA7Y71bAAY72bA4Y7X0bAY8aO",
  "1bAX4aO4bAX7aO1bAX4aO1bAFaO1bA7aO4b92aOX5bAb0YVX6X61bA1X65bA1X62bAXBX61b94X6e0XGY9X41bA4X42b",
  "A7X41bA1X41bA4X42bAX9X41bA4X42bAX1X41bA4X42bA7X41bA1X41bA4X42bAFX41bAXPX41bA4X42bAY3X42bAX0X",
  "43bAQX46bAYMM2bA6M2bAq0JTZ73bAYBZQ3b9BZQ7bAMaL9bA1aLLXI2b99bAKHCbADaC1bA3aC1bA2aCCbAYUY02bAA",
  "Y06bAAY06bA2YR2b91YR1b9KYR6bAYPYR7bAXBYR5bAY6JAbAVYA1bACYA4bACYA4bA1YA3bACYAUaE2bA5aEBbAXCaF",
  "4bAQaF6bABaF3bA2aFX0Y0SG2bA2GXVY61bATY62bABY66bAAY66bAEY62bAVb8XHbAYD71bAXI7Y0a8XKA8bA4AXOY9",
  "3bAFY93bA3Y9XGZ8BR5bAXBX62bA3X68a88bA3b81b9Db81b97b84b91b86b91b83b92b81b95bAX6Y85XC1RXHY85XC",
  "4Y85XCDY81RY6Y81XCY0b8e0Y8MXC2bA6XC2bAX6XC2bA6XC2bA8XC1bA1XC1bA1XC1bA1XC1bAVXC2bAXLXC1bAFXC1",
  "bAEXC2bA6XC1bAJXC2bA3XC1bA9XC1bACb92b8YNb91bABb91Y82bABb91Y8Fb91bADY83bAX1b9FbAX1b8FbAX6b91X",
  "C3b92Y86b91Y8Rb91Y8Hb9X9Y83b94bAqQb9MbABb9LbAz0b9e0FpKb92bAX0b91bAZ9b9Z0X7X0Y8ZKO5bA7OX6X61b",
  "A1X65bA1X62bAXOaK7bA2aKEbA1aKNX49bA7X41bA7X41bA7X41bA7X41bA7X41bA7X41bA7X41bA7X41bAX0RYUb9X2",
  "bAQXH1bAYPXHCbAcMXHQbALb91XH1b91XHPb99XH4b82XG8b94XH4b91bAYMXL2bA2b82b93XL1b9YQXT2b93XT5bAXB",
  "D1bAYUXG1bAGb9X0DX6b99bA1b9GXTVXG1bAY0b9VXGYHb9XFXT1b9YOXTb8b9ck0XHY0b9qm0XHXaDb63bAXNb69bAX",
  "GYDfCaVKbAZ0RYO88bAX2b9Z6Y83b9Y3Y82bA2Y81bA1Y81bA8Y8LbAEY8XDaA3bAAb96bAXOZI8bAY6ZT8bACZT6bAX",
  "0SXEXS1b91XSX4ZOBbA1ZOTXG3bAYEXR1bA1b9AXR4bA2XRVYV1bAXNL9bAEL2bAAL2bA4LX0YVY3aIObA5aINYTAbA6",
  "X42bA6X42bA6X49bA7X41bA7X41bAXBY81b99Y81XC4Y82b94bAYGMXEYT2bAAYT6bAgz4XGCbANXG4bAXHXGce4bAhE",
  "XH2bAZAXHX6bA7Y8CbA555bAQXK1bA5XK1bA1XK1bA2XK1bA2XK1bAAXKZJ3GbAhB32b9YG32bAXM37bA13X0bAG3Gb8",
  "Ab96bAEb82RX3b91bAJb91bA4b94bA531bAa732bA1b91bAX0b9QY86b9QY8Bb9AXT1b9XDXT2b9VXG3bA6XG2bA6XG2",
  "bA6XG2bA3XG3bA7b91bA7b9AbA5b92bACYC1bAQYC1bAJYC1bA2YC1bAFYC2bAEYCX2bAZRYC5bA3b94bAXDb93bA9b9",
  "YFXC1bADb93bA1XCXFbAXDb91b8a2bATYE3bAXHKFbA1b8Rb94bAX4XQ9bA3XQRXA5bAXBZH5bAUaU1bA1aUX4b34bAE",
  "b3XAbAYGVXGZVUZD2bAAZD6bAX4ZC4bAX4ZC4bAX8X28bAXK1BbA11Bb01bAFb01bA7b01bA2b01bABb01bAFb01bA7b",
  "01bA2b03bAXKaRCbAfNYB9bAMYBAbA8YBObA6Y81bAXAY81bA9Y8Y5bA6Q2bA1Q1bAXCQ1bA2Q3bA1Q2bA1QM41bA94X",
  "0ZFVZ38bA9Z3XGbAJXJ1bA2XJ5bA5XJSZL3bA1ZLQYF5bA1YFY0bAX0YOOYN4bAKYN2bAXEYN4XV1bA2XV5bA8XV1bA3",
  "XV1bATXV2bA3XV4bAAXV7bA9XV7bAX0ZSX0Z2X0bAX7YJ4bACYJ9bAXM63bA76MZN2bA8ZNJZJ5bA8ZJIZK7bA4ZKCbA",
  "7ZKYGbAY9ZAXNbAXJXPDbAXJXP7bA6XPX8ZP8bAAZP6bAX6X53bATX58bA2X5cGbAV31bAXAb51bA3b52bA2b5GbA33X",
  "NbA43X8a58bAXAa4MbAQZEX6bASNKbANX39bAYEE4bAX4E9bA1EY3Y5AbA1Y52bAPa67bAAa66bAXLI1bAII8bAX7YG9",
  "bAZ0a01bAKa3BbAIY11bAXFY1XUbA7YU1bA1YU1bA4YU1bAFYU1bABYU6bAXRa25bAAa26bA4XB1bA8XB2bA2XB2bAMX",
  "B1bA7XB1bA2XB1bA5XB1bA1b89XB2bA2XB2bA3XB2bA1XB6bA1XB5bA7XB2bA7XB3bA5XBBbAAaT1bA1aT2bA1aT1bAX",
  "6aT1bAAaT1bA1aT2bA1aT1bA4aT1bAAaT1bA2aT8bA2aTTbAYSZ41bA5Z4UbAY8aP8bAAaPb6bAXMa12bAX6a1X2bAY5",
  "YQBbAAYQ6bADYRJbAXQaD6bAAaD6bAKYVSbAR22bAF24bAN2bPbAXSUZ4bAYJb1CbA1b17T2bA1T2bA8T1bA2T1bAUT1",
  "bA2T2bACT9bAATY6bA8Z12bAXEZ12bABZ1RbAY8b78bAYJa7DbAGJXPZG7bAASbMbAX2a9EbAAa96bA9C1bAXDC1bAEC",
  "AbATC3bAX0YK2bAMYK1bAEYKY9bA7X91bA2X91bAXCX93bA1X91bA2X91bA9X98bAAX96bA6X81bA2X81bAX5X81bA2X",
  "81bA6X87bAAX8fMbAPYH7bAHXU1bAX9XU3bATXUYLbA1YDFbAXIaGDbA1aGyQb4Z6bAZFb41bA5b4BbAc4b4YoCbAZ3P",
  "DbAXYMX1AbAZyRX15bAo7XMcrPbAXQXEXs6bAnP87bAVYS1bAAYS4bA2YSYFaQ1bAAaQ6bAU92bA69AbAY6XNAbAAXN1",
  "bA7XN1bALXN5bAJXNjGbAXQY4c6bAYRYLZ5bAYBZM4bAXPZM7bAHZMY0bA1aH1Z62XH1Y2BbA2XHEbAb-OaH8bAu0aHk",
  "MY2X9bA1Y29aHet7bA4XT1bA7XT1bA2XT1bA1XTeVXL3XTFbA1XLTbA3XL2bA1XTEbA4XT8bAiCZ6Ye4bAZBX05bADX0",
  "3bA9X07bAAX02bA4X04b9ZwSbAdQb96bAjKb9YCbAXEb82bANb89bAZKb9XSbAdMb9AbAX7b92bAXUb93b8Hb98b82b9",
  "7b8Ub94b8XTb9LbAY6XCZQbAKb9CbAKb9CbAYNb99bAPb9a7bAYLb91bAY7b91bA2b92bA1b92bA2b92bA4b91bACb91",
  "bA1b91bA7b91bAY1b91bA4b92bA8b91bA7b91bASb91bA4b91bA5b91bA1b93bA7b91bAgKb92bAf4b92bAXIb9qCZUF",
  "bA5ZU1bAFZUXYGbAVY86bA6Y8cLbA7X71bAHX72bA7X71bA2X71bA5X75bAXURX1bA1RZGbAXDXO3bAEXO2bAAXO4bA2",
  "XOg0bAVaSHbAXQb25bA1b2kGbAXAZ0cMbAXBZ94bA1Z9l0bA7X41bA4X41bA2X41bAFX41bAc5YM2bAGYMX9bAYC04bA",
  "A04bA20uHbAY4b9YCbAXTb9c2bA431bAR31bA231bA132bA131bAA31bA431bA131bA136bA134bA131bA131bA131bA",
  "331bA231bA132bA131bA131bA131bA131bA131bA231bA132bA431bA731bA431bA431bA131bAA31bAH35bA331bA53",
  "1bAH3XKbA23eEbAXCb94bAZ4b9CbAFb92bAFb91bAFb91bAX5b9AbAbEb9XObAQb91XL2b9DbAXCb94bA9b97bA2b9Eb",
  "A6b9aQbA+Ob94bAHb93bADb93bAZNb94bAYVb96bACb94bA1b9FbACb94bAXOb98bAAb96bAX8b98bAUb92bACb94bA2",
  "b9XUbAgKb9CbAEb92bADb93bAAb95bAXOb97bAFb92bABb96bA9b97bAaJb91bAZ6b9XW6bAXft0XHX0bAaXQXH6bAcU",
  "XH2bAbq2XHEbAdfHXHFbApEXHYj2bAmUXHXl2bAawBXH5bAaZ0XHrtYHbA1b9UbAZ0b9a0bAdGb8b-mGbA"]

/-- The sets of scripts that characters are used with. -/
def extensionSets : List (List Nat) := [
  [6, 20, 24, 32, 34, 38, 39, 40, 42, 44, 49, 72, 79, 80, 113, 127],
  [11, 27, 28, 72, 77, 151, 156], [13, 72], [72, 77], [72, 151],
  [22, 24, 27, 44, 72, 113, 137, 142], [22, 27, 44, 72, 108, 137, 142, 155], [22, 27, 72, 148],
  [39, 72, 137, 139, 151], [1, 22, 24, 27, 42, 44, 72, 108, 139, 148, 155],
  [24, 34, 39, 42, 61, 72], [27, 44, 72, 113, 148], [24, 32, 52, 72, 113, 139, 142, 148, 155],
  [5, 27, 32, 42, 44, 52, 72, 113, 139, 142, 148], [72, 148], [32, 72, 139], [22, 27, 72, 108],
  [22, 72, 142], [72, 137], [36, 72], [27, 72, 155], [44, 72, 113, 155],
  [22, 32, 61, 72, 139, 148], [22, 32, 72, 139], [72, 139], [72, 137, 139], [22, 72, 139],
  [1, 22, 42, 72, 137, 139, 151], [44], [72, 108], [1, 72, 155], [72], [24, 44], [27, 113],
  [27, 39], [27, 72], [5, 38, 39], [3, 37, 101, 121, 139, 150, 165], [3, 139, 150],
  [0, 3, 37, 101, 121, 139, 150, 165], [0, 3, 82, 83, 110, 116, 121, 132, 139], [3, 139],
  [3, 150, 165], [3, 121], [11, 28, 43, 45, 47, 67, 72, 89, 97, 100, 107, 128, 144, 147, 153],
  [11, 28, 43, 45, 47, 67, 72, 89, 100, 107, 144, 147, 153],
  [11, 28, 30, 40, 41, 43, 45, 47, 67, 80, 89, 97, 105, 107, 130, 131, 138, 141, 144, 147, 153],
  [11, 28, 30, 40, 41, 43, 45, 46, 47, 67, 74, 80, 89, 97, 105, 107, 130, 131, 138, 141, 144, 147, 153],
  [28, 30, 69, 80], [11, 18, 138], [47, 94], [45, 65], [43, 144], [67, 97, 157], [18, 95, 142],
  [38, 39, 72], [122], [17, 50, 140, 149], [91, 114], [11, 28, 43, 67], [28], [28, 43, 67],
  [11, 28, 100, 147, 153], [11, 28, 147], [28, 100, 128], [11, 28, 100, 147], [28, 128],
  [28, 67, 89, 107, 144, 147], [11, 28], [28, 100, 153], [28, 97, 100], [11, 28, 128], [28, 100],
  [11, 28, 100, 128], [11, 28, 43, 67, 89, 97, 107, 131, 147, 153, 157], [28, 43],
  [28, 43, 67, 157], [11], [97], [27, 72, 139], [139], [72, 91, 114], [0, 3],
  [20, 38, 39, 57, 78, 106], [20, 44, 57, 88], [28, 43, 72], [24, 72], [6, 106],
  [6, 20, 38, 57, 69, 79, 123], [32], [0, 3, 57], [49, 145], [13, 48, 49, 53, 61, 91, 166],
  [13, 48, 49, 53, 61, 91, 114, 166], [13, 48, 49, 53, 61], [49],
  [13, 48, 49, 53, 61, 91, 152, 166], [13, 48, 49, 53, 61, 77, 91, 152, 166],
  [13, 48, 49, 53, 61, 166], [13, 49], [53, 61], [49, 53, 61], [49, 72],
  [28, 30, 45, 47, 65, 67, 69, 80, 89, 90, 97, 128, 130, 141, 153, 157],
  [28, 30, 45, 47, 65, 67, 69, 80, 90, 97, 128, 130, 141, 153, 157],
  [28, 30, 45, 47, 65, 69, 80, 90, 130, 141, 153],
  [28, 30, 45, 47, 65, 69, 80, 90, 128, 130, 141, 153], [11, 28, 157], [28, 144], [60, 72, 95],
  [16, 59], [3, 101], [3, 150], [25, 26, 76], [26, 76], [26, 75, 76], [3, 24], [83, 110]]

/-- The sets for all characters in order, counted from 1. Characters with 0 are used with their own
script. -/
def extensions : Runs := runsOf [
  "bN011m4012A0131033101490151013X60161718191A1B1C1D1E1F1G1H1I1J1K101J1L101MF01N1O1P701Q1P101R1",
  "SG01T201TI01U501V40DX0402X1eD01X21X32X41X3e101X5a201X6E01X61X7201X8X001X9A0BXAA0AXB601XAZ301",
  "XCpS01XD1XEH01XF1XGAXHZM0AXIZM0AXJZM0AXKdM0EXLdI0AXMwG0AXNbH01XOXlF03XPY702XQcB02XR101XRXcA0",
  "1XS1XT1XS1XU1XT1XV1Y01Y11Y21Y31Y41XT2Y32XT1Y31Y51Y66XT1Y71Y81Y91XT1YA4XT1YB1YC1YD2Y51YE2YC1Y",
  "Fc502TXM01YG101YHnK01YIV01YJA01YK201YLaI01YMZf601YNO01YO1YPA01YQ401YR101X3jC0GYS101YT1YU1YV2",
  "01Z0102Z12Z26Z3101YV8Z34YVA04Z4201YV5Z5101YV402Z62Z0YP04Z5301Z5YQ01Z31Z5aJ0GZ0X00X6Z0901YSXG",
  "0X8Z0XO0XHZ0F0CZ0XJ01Z0YO0PZ0A05Z0Z00VZ0ypG01X3aG08Z7f803Z83Z92ZA1ZB1ZAbN01ZC101ZDXQ01ZEb001",
  "ZFoxE02ZGbI01ZHA01ZHY702YVeQ05Z3A01Z5XD02Z5h002ZI1ZJ40XDZK309ZJj00SZLX-M01ZMYWE01XL101XLXN02",
  "XLZaJ02XL101XLXdcC04YQbrS0IZ0dsU02Z0+ZjE0"]

end AttrGrammar.Text.Unicode
