import ContentStream.Text.Utf8

/-!
# Operators

A content stream names its operators by short mnemonics. The known ones form the enumeration
`Keyword`; every other spelling is kept as text, so that no operator of a stream is ever lost.

There is a table for reading mnemonics and one for writing them. The first is searched with bytes,
before anything is read as text.

## Main definitions

* `Keyword.spelling`: the table for writing.
* `Keyword.readings`, `Keyword.ofBytes?`: the table for reading.
* `Operator.ofBytes`: the operator written as a byte sequence.

## Main results

* `Keyword.mem_all`: the list `Keyword.all` misses no keyword.
-/

namespace ContentStream

/-- A **keyword**: an operator this library knows. -/
inductive Keyword where
  -- Graphics state
  | save
  | restore
  | concat
  | lineWidth
  | lineCap
  | lineJoin
  | miterLimit
  | dash
  | intent
  | flatness
  | extGState
  -- Path construction
  | moveTo
  | lineTo
  | curveTo
  | curveFromCurrent
  | curveToEnd
  | closePath
  | rectangle
  -- Path painting
  | stroke
  | closeStroke
  | fill
  | fillObsolete
  | fillEvenOdd
  | fillEvenOddObsolete
  | fillStroke
  | fillStrokeEvenOdd
  | closeFillStroke
  | closeFillStrokeEvenOdd
  | endPath
  -- Clipping
  | clip
  | clipEvenOdd
  -- Text objects
  | beginText
  | endText
  -- Text state
  | charSpacing
  | wordSpacing
  | horizontalScale
  | leading
  | font
  | renderMode
  | rise
  -- Text positioning
  | moveLine
  | moveLineLeading
  | textMatrix
  | nextLine
  -- Text showing
  | showText
  | showAdjusted
  | nextLineShow
  | nextLineShowSpaced
  -- Color
  | strokeSpace
  | fillSpace
  | strokeColor
  | strokeColorN
  | fillColor
  | fillColorN
  | strokeGray
  | fillGray
  | strokeRgb
  | fillRgb
  | strokeCmyk
  | fillCmyk
  -- External objects and shadings
  | invoke
  | shade
  -- Inline images
  | beginImage
  | imageData
  | endImage
  -- Marked content
  | markPoint
  | markPointProperties
  | beginMarked
  | beginMarkedProperties
  | endMarked
  -- Glyph metrics
  | glyphWidth
  | glyphWidthBox
  -- Compatibility
  | beginCompatibility
  | endCompatibility
deriving DecidableEq

namespace Keyword

/-- All keywords, in the order of the enumeration. -/
def all : List Keyword :=
  [.save, .restore, .concat, .lineWidth, .lineCap, .lineJoin, .miterLimit, .dash, .intent,
    .flatness, .extGState, .moveTo, .lineTo, .curveTo, .curveFromCurrent, .curveToEnd, .closePath,
    .rectangle, .stroke, .closeStroke, .fill, .fillObsolete, .fillEvenOdd, .fillEvenOddObsolete,
    .fillStroke, .fillStrokeEvenOdd, .closeFillStroke, .closeFillStrokeEvenOdd, .endPath, .clip,
    .clipEvenOdd, .beginText, .endText, .charSpacing, .wordSpacing, .horizontalScale, .leading,
    .font, .renderMode, .rise, .moveLine, .moveLineLeading, .textMatrix, .nextLine, .showText,
    .showAdjusted, .nextLineShow, .nextLineShowSpaced, .strokeSpace, .fillSpace, .strokeColor,
    .strokeColorN, .fillColor, .fillColorN, .strokeGray, .fillGray, .strokeRgb, .fillRgb,
    .strokeCmyk, .fillCmyk, .invoke, .shade, .beginImage, .imageData, .endImage, .markPoint,
    .markPointProperties, .beginMarked, .beginMarkedProperties, .endMarked, .glyphWidth,
    .glyphWidthBox, .beginCompatibility, .endCompatibility]

/-- The spelling of a keyword in a content stream. -/
def spelling : Keyword → String
  | save => "q"
  | restore => "Q"
  | concat => "cm"
  | lineWidth => "w"
  | lineCap => "J"
  | lineJoin => "j"
  | miterLimit => "M"
  | dash => "d"
  | intent => "ri"
  | flatness => "i"
  | extGState => "gs"
  | moveTo => "m"
  | lineTo => "l"
  | curveTo => "c"
  | curveFromCurrent => "v"
  | curveToEnd => "y"
  | closePath => "h"
  | rectangle => "re"
  | stroke => "S"
  | closeStroke => "s"
  | fill => "f"
  | fillObsolete => "F"
  | fillEvenOdd => "f*"
  | fillEvenOddObsolete => "F*"
  | fillStroke => "B"
  | fillStrokeEvenOdd => "B*"
  | closeFillStroke => "b"
  | closeFillStrokeEvenOdd => "b*"
  | endPath => "n"
  | clip => "W"
  | clipEvenOdd => "W*"
  | beginText => "BT"
  | endText => "ET"
  | charSpacing => "Tc"
  | wordSpacing => "Tw"
  | horizontalScale => "Tz"
  | leading => "TL"
  | font => "Tf"
  | renderMode => "Tr"
  | rise => "Ts"
  | moveLine => "Td"
  | moveLineLeading => "TD"
  | textMatrix => "Tm"
  | nextLine => "T*"
  | showText => "Tj"
  | showAdjusted => "TJ"
  | nextLineShow => "'"
  | nextLineShowSpaced => "\""
  | strokeSpace => "CS"
  | fillSpace => "cs"
  | strokeColor => "SC"
  | strokeColorN => "SCN"
  | fillColor => "sc"
  | fillColorN => "scn"
  | strokeGray => "G"
  | fillGray => "g"
  | strokeRgb => "RG"
  | fillRgb => "rg"
  | strokeCmyk => "K"
  | fillCmyk => "k"
  | invoke => "Do"
  | shade => "sh"
  | beginImage => "BI"
  | imageData => "ID"
  | endImage => "EI"
  | markPoint => "MP"
  | markPointProperties => "DP"
  | beginMarked => "BMC"
  | beginMarkedProperties => "BDC"
  | endMarked => "EMC"
  | glyphWidth => "d0"
  | glyphWidthBox => "d1"
  | beginCompatibility => "BX"
  | endCompatibility => "EX"

/-- The label of a keyword in diagnostics, where upper and lower case have to be told apart at a
glance. -/
def label : Keyword → String
  | save => "Qq"
  | restore => "Q"
  | concat => "Cm"
  | lineWidth => "Ww"
  | lineCap => "J"
  | lineJoin => "Jj"
  | miterLimit => "M"
  | dash => "D"
  | intent => "Ri"
  | flatness => "I"
  | extGState => "Gs"
  | moveTo => "Mm"
  | lineTo => "L"
  | curveTo => "C"
  | curveFromCurrent => "V"
  | curveToEnd => "Y"
  | closePath => "H"
  | rectangle => "Re"
  | stroke => "S"
  | closeStroke => "Ss"
  | fill => "Ff"
  | fillObsolete => "F"
  | fillEvenOdd => "FStar"
  | fillEvenOddObsolete => "FFStar"
  | fillStroke => "B"
  | fillStrokeEvenOdd => "BStar"
  | closeFillStroke => "Bb"
  | closeFillStrokeEvenOdd => "BbStar"
  | endPath => "N"
  | clip => "WClip"
  | clipEvenOdd => "WStar"
  | beginText => "BT"
  | endText => "ET"
  | charSpacing => "Tc"
  | wordSpacing => "Tw"
  | horizontalScale => "Tz"
  | leading => "TL"
  | font => "Tf"
  | renderMode => "Tr"
  | rise => "Ts"
  | moveLine => "Td"
  | moveLineLeading => "TD"
  | textMatrix => "Tm"
  | nextLine => "TStar"
  | showText => "Tj"
  | showAdjusted => "TJ"
  | nextLineShow => "Quote"
  | nextLineShowSpaced => "DoubleQuote"
  | strokeSpace => "CS"
  | fillSpace => "Cs"
  | strokeColor => "SC"
  | strokeColorN => "SCN"
  | fillColor => "Sc"
  | fillColorN => "Scn"
  | strokeGray => "G"
  | fillGray => "Gg"
  | strokeRgb => "RG"
  | fillRgb => "Rg"
  | strokeCmyk => "K"
  | fillCmyk => "Kk"
  | invoke => "Do"
  | shade => "Sh"
  | beginImage => "BI"
  | imageData => "ID"
  | endImage => "EI"
  | markPoint => "MP"
  | markPointProperties => "DP"
  | beginMarked => "BMC"
  | beginMarkedProperties => "BDC"
  | endMarked => "EMC"
  | glyphWidth => "D0"
  | glyphWidthBox => "D1"
  | beginCompatibility => "BX"
  | endCompatibility => "EX"

/-- The table for reading: the words that are keywords in a content stream. -/
def readings : List (String × Keyword) :=
  [("Q", .restore), ("q", .save), ("cm", .concat), ("w", .lineWidth), ("J", .lineCap),
    ("j", .lineJoin), ("M", .miterLimit), ("d", .dash), ("ri", .intent), ("i", .flatness),
    ("gs", .extGState), ("m", .moveTo), ("l", .lineTo), ("c", .curveTo), ("v", .curveFromCurrent),
    ("y", .curveToEnd), ("h", .closePath), ("re", .rectangle), ("S", .stroke), ("s", .closeStroke),
    ("F", .fillObsolete), ("f", .fill), ("f*", .fillEvenOdd), ("F*", .fillEvenOddObsolete),
    ("B", .fillStroke), ("B*", .fillStrokeEvenOdd), ("b", .closeFillStroke),
    ("b*", .closeFillStrokeEvenOdd), ("n", .endPath), ("W", .clip), ("W*", .clipEvenOdd),
    ("BT", .beginText), ("ET", .endText), ("Tc", .charSpacing), ("Tw", .wordSpacing),
    ("Tz", .horizontalScale), ("TL", .leading), ("Tf", .font), ("Tr", .renderMode), ("Ts", .rise),
    ("Td", .moveLine), ("TD", .moveLineLeading), ("Tm", .textMatrix), ("T*", .nextLine),
    ("Tj", .showText), ("TJ", .showAdjusted), ("'", .nextLineShow), ("\"", .nextLineShowSpaced),
    ("CS", .strokeSpace), ("cs", .fillSpace), ("SC", .strokeColor), ("SCN", .strokeColorN),
    ("sc", .fillColor), ("scn", .fillColorN), ("G", .strokeGray), ("g", .fillGray),
    ("RG", .strokeRgb), ("rg", .fillRgb), ("K", .strokeCmyk), ("k", .fillCmyk), ("Do", .invoke),
    ("sh", .shade), ("BI", .beginImage), ("ID", .imageData), ("EI", .endImage), ("MP", .markPoint),
    ("DP", .markPointProperties), ("BMC", .beginMarked), ("BDC", .beginMarkedProperties),
    ("EMC", .endMarked), ("d0", .glyphWidth), ("d1", .glyphWidthBox), ("BX", .beginCompatibility),
    ("EX", .endCompatibility)]

/-- The keyword written as a byte sequence, if there is one. Words are compared byte by byte. -/
def ofBytes? (bytes : Bytes) : Option Keyword :=
  (readings.find? fun entry => entry.1.toUTF8.data.toList == bytes).map Prod.snd

/-- No keyword is missing from the list. -/
theorem mem_all (k : Keyword) : k ∈ all := by
  cases k <;> decide

end Keyword

/-- An **operator** of a content stream: a keyword, or any other spelling. -/
inductive Operator where
  | known (keyword : Keyword)
  | unknown (spelling : String)
deriving DecidableEq

namespace Operator

/-- The spelling of an operator. -/
def spelling : Operator → String
  | known k => k.spelling
  | unknown s => s

/-- The operator with a given spelling. -/
def ofText (text : String) : Operator :=
  match Keyword.all.find? (fun k => k.spelling == text) with
  | some k => known k
  | none => unknown text

/-- The operator written as a byte sequence. What is no keyword is kept as text, with the bytes
replaced that form no character. -/
def ofBytes (bytes : Bytes) : Operator :=
  match Keyword.ofBytes? bytes with
  | some k => known k
  | none => unknown (Utf8.decode bytes)

end Operator

end ContentStream
