import AddonBundle.Text.Digit
import AddonBundle.Text.Lower
/-!
# Styles

The name of a markup tag is a style: attributes such as `bold`, a colour, a background and a link.
Different names may describe one style, so a style has a normal name. A name that describes no style
is its own, in lower case.
-/

namespace AddonBundle.Text

/-- The attributes, in the order in which a normal name lists them. -/
def styleAttributes : List Text :=
  ["bold".toList, "dim".toList, "italic".toList, "underline".toList, "blink".toList,
    "blink2".toList, "reverse".toList, "conceal".toList, "strike".toList, "underline2".toList,
    "frame".toList, "encircle".toList, "overline".toList]

/-- The short names of attributes. -/
def shortAttributes : List (Text × Text) :=
  [("d".toList, "dim".toList), ("b".toList, "bold".toList), ("i".toList, "italic".toList),
    ("u".toList, "underline".toList), ("r".toList, "reverse".toList),
    ("c".toList, "conceal".toList), ("s".toList, "strike".toList),
    ("uu".toList, "underline2".toList), ("o".toList, "overline".toList)]

/-- The attribute that a word names. -/
def attributeOf? (word : Text) : Option Text :=
  if styleAttributes.contains word then some word
  else (shortAttributes.find? fun entry => entry.1 == word).map (·.2)

/-- The names of colours, shades of grey aside. -/
def colourNames : List Text :=
  split ' ' (String.toList
  ("aquamarine1 aquamarine3 black blue blue1 blue3 blue_violet bright_black bright_blue " ++
    "bright_cyan bright_green bright_magenta bright_red bright_white bright_yellow cadet_blue " ++
    "chartreuse1 chartreuse2 chartreuse3 chartreuse4 cornflower_blue cornsilk1 cyan cyan1 " ++
    "cyan2 cyan3 dark_blue dark_cyan dark_goldenrod dark_green dark_khaki dark_magenta " ++
    "dark_olive_green1 dark_olive_green2 dark_olive_green3 dark_orange dark_orange3 dark_red " ++
    "dark_sea_green dark_sea_green1 dark_sea_green2 dark_sea_green3 dark_sea_green4 " ++
    "dark_slate_gray1 dark_slate_gray2 dark_slate_gray3 dark_turquoise dark_violet deep_pink1 " ++
    "deep_pink2 deep_pink3 deep_pink4 deep_sky_blue1 deep_sky_blue2 deep_sky_blue3 " ++
    "deep_sky_blue4 dodger_blue1 dodger_blue2 dodger_blue3 gold1 gold3 green green1 green3 " ++
    "green4 green_yellow honeydew2 hot_pink hot_pink2 hot_pink3 indian_red indian_red1 khaki1 " ++
    "khaki3 light_coral light_cyan1 light_cyan3 light_goldenrod1 light_goldenrod2 " ++
    "light_goldenrod3 light_green light_pink1 light_pink3 light_pink4 light_salmon1 " ++
    "light_salmon3 light_sea_green light_sky_blue1 light_sky_blue3 light_slate_blue " ++
    "light_slate_gray light_slate_grey light_steel_blue light_steel_blue1 light_steel_blue3 " ++
    "light_yellow3 magenta magenta1 magenta2 magenta3 medium_orchid medium_orchid1 " ++
    "medium_orchid3 medium_purple medium_purple1 medium_purple2 medium_purple3 medium_purple4 " ++
    "medium_spring_green medium_turquoise medium_violet_red misty_rose1 misty_rose3 " ++
    "navajo_white1 navajo_white3 navy_blue orange1 orange3 orange4 orange_red1 orchid orchid1 " ++
    "orchid2 pale_green1 pale_green3 pale_turquoise1 pale_turquoise4 pale_violet_red1 pink1 " ++
    "pink3 plum1 plum2 plum3 plum4 purple purple3 purple4 red red1 red3 rosy_brown " ++
    "royal_blue1 salmon1 sandy_brown sea_green1 sea_green2 sea_green3 sky_blue1 sky_blue2 " ++
    "sky_blue3 slate_blue1 slate_blue3 spring_green1 spring_green2 spring_green3 " ++
    "spring_green4 steel_blue steel_blue1 steel_blue3 tan thistle1 thistle3 turquoise2 " ++
    "turquoise4 violet wheat1 wheat4 white yellow yellow1 yellow2 yellow3 yellow4"))

/-- The shades of grey, from none to a hundred. -/
def greyShades : List Nat :=
  [0, 3, 7, 11, 15, 19, 23, 27, 30, 35, 37, 39, 42, 46, 50, 53, 54, 58, 62, 63, 66, 69, 70, 74,
    78, 82, 84, 85, 89, 93, 100]

/-- Whether a word names a shade of grey. -/
def isGrey (word : Text) : Bool :=
  greyShades.any fun shade =>
    word = "grey".toList ++ ofNat shade || word = "gray".toList ++ ofNat shade

/-- What stands between the parentheses of a word that starts with a name. -/
def argumentOf? (name word : Text) : Option Text := do
  let inside ← after? (name ++ ['(']) word
  if inside.getLast? = some ')' then some inside.dropLast else none

/-- Whether a text is a number of at most 255, in digits of any script. -/
def isComponent (text : Text) : Bool :=
  !text.isEmpty && text.all isDigit &&
    text.foldl (fun n c => n * 10 + digitValue c) 0 ≤ 255

/-- Whether a word is a colour: by name, by its six digits in base sixteen, by its number, or by
its components. -/
def isColour (word : Text) : Bool :=
  word = "default".toList || isGrey word || colourNames.contains word ||
    (match word with
    | '#' :: digits =>
      digits.length = 6 && digits.all fun c => isDecimal c || ('a' ≤ c && c ≤ 'f')
    | _ => false) ||
    ((argumentOf? "color".toList word).any fun number =>
      number.length ≤ 3 && number.all isDecimal && isComponent number) ||
    ((argumentOf? "rgb".toList word).any fun components =>
      (split ',' components).length = 3 && (split ',' components).all isComponent)

/-- A style: the attributes that are on or off, a colour, a background and a link. -/
structure Style where
  attributes : List (Text × Bool) := []
  colour : Option Text := none
  background : Option Text := none
  link : Option Text := none
deriving Repr, DecidableEq

/-- The style with an attribute on or off. -/
def Style.set (style : Style) (feature : Text) (on : Bool) : Style :=
  { style with attributes := (feature, on) :: style.attributes }

/-- The style that words describe, after those before. -/
def styleOf? : Style → List Text → Option Style
  | style, [] => some style
  | style, word :: rest =>
    let lowered := lower word
    if lowered = "on".toList then
      match rest with
      | colour :: rest =>
        let colour := lower colour
        if isColour colour then styleOf? { style with background := some colour } rest else none
      | [] => none
    else if lowered = "not".toList then
      match rest with
      | feature :: rest => (attributeOf? feature).bind fun a => styleOf? (style.set a false) rest
      | [] => none
    else if lowered = "link".toList then
      match rest with
      | link :: rest => styleOf? { style with link := some link } rest
      | [] => none
    else
      match attributeOf? lowered with
      | some feature => styleOf? (style.set feature true) rest
      | none =>
        if isColour lowered then styleOf? { style with colour := some lowered } rest else none

/-- The words of the normal name of a style; the last word on an attribute counts. -/
def Style.words (style : Style) : List Text :=
  let attributes := styleAttributes.filterMap fun feature =>
    (style.attributes.find? fun entry => entry.1 == feature).map fun entry =>
      if entry.2 then feature else "not ".toList ++ feature
  attributes ++ style.colour.toList ++
    (match style.background with
    | some colour => ["on".toList, colour]
    | none => []) ++
    match style.link with
    | some link => ["link".toList, link]
    | none => []

/-- The words of a text, between blanks. -/
def wordsOf (text : Text) : List Text :=
  (split ' ' (text.map fun c => if isBlank c then ' ' else c)).filter fun word => !word.isEmpty

/-- The normal name of a style. -/
def styleName (name : Text) : Text :=
  if trim name = "none".toList then trim name
  else
    match styleOf? {} (wordsOf name) with
    | some style => if style.words.isEmpty then "none".toList else join [' '] style.words
    | none => lower (trim name)

end AddonBundle.Text
