import Ztest.Lib.Lines

/-!
This module contains the stripping of libtest's framing from what one test run printed, over bytes as
they were captured: lines of the footer from the end, run headers and markers, and the blank lines at the edges.
-/

namespace Libtest

abbrev Line := List UInt8

def utf8 (text : String) : List UInt8 := text.toUTF8.data.toList

def newline : UInt8 := 10

def isAsciiDigit (byte : UInt8) : Bool := 48 ≤ byte && byte ≤ 57

def isRunHeader (line : Line) : Bool :=
  match line.dropPrefix? (utf8 "running ") with
  | none => false
  | some rest =>
    match (rest.dropSuffix? (utf8 " tests")).or (rest.dropSuffix? (utf8 " test")) with
    | none => false
    | some count => !count.isEmpty && count.all isAsciiDigit

def isVerdict (line : Line) : Bool :=
  line == utf8 "ok" || line == utf8 "ignored" || line == utf8 "FAILED" || (utf8 "FAILED (").isPrefixOf line

-- What the summary is made of, above its `test result: ` line and below the verdict.
def isFooter (line : Line) : Bool :=
  line.isEmpty || line == utf8 "failures:" || (utf8 "    ").isPrefixOf line
    || ((utf8 "---- ").isPrefixOf line && (utf8 " ----").isSuffixOf line)

-- The lines are popped from the last one on, which stands first here.
def popFooter : List Line → List Line
  | [] => []
  | last :: rest =>
    if isFooter last then popFooter rest
    else if isVerdict last then rest
    else last :: rest

def stripFooterGrammar (lines : List Line) : List Line := (popFooter lines.reverse).reverse

def isResult (line : Line) : Bool := (utf8 "test result: ").isPrefixOf line

def cutFooter (lines : List Line) : List Line :=
  match Lines.rposition isResult lines with
  | none => lines
  | some r => stripFooterGrammar (lines.take r)

def marker (testName : String) : Line := utf8 s!"test {testName} ... "

def keepLine (testName : String) (line : Line) : Option Line :=
  if isRunHeader line then none
  else
    match line.dropPrefix? (marker testName) with
    | some rest => if !rest.isEmpty && !isVerdict rest then some rest else none
    | none => some line

def stripLines (testName : String) (lines : List Line) : List Line :=
  Lines.trim List.isEmpty ((cutFooter lines).filterMap (keepLine testName))

def stripLibtestFrame (output : List UInt8) (testName : String) : List UInt8 :=
  Lines.join newline (stripLines testName (output.splitOn newline))

end Libtest
