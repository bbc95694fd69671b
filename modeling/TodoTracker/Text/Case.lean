import TodoTracker.Text.Word

/-!
# Letter case

Lower case and upper case of a text follow the full mappings of Unicode: a letter may become
several, and a capital sigma at the end of a word becomes the final small sigma. Comparison
without regard to case uses the simple mapping, one letter to one letter, and a few letters that
share an upper case form.
-/

set_option autoImplicit false

namespace TodoTracker.Text

/-- Every `step`-th code point from `low` to `high` moves by `shift`. -/
structure CaseRun where
  low : Nat
  high : Nat
  step : Nat
  shift : Int

namespace CaseRun

def covers (run : CaseRun) (n : Nat) : Bool :=
  run.low ≤ n && n ≤ run.high && (n - run.low) % run.step == 0

/-- A run is written `LOW-HIGH/STEP+SHIFT`, or with `~` when the shift goes down. -/
def read (t : Text) : CaseRun :=
  match cut? ['/'] t with
  | some (points, step :: '+' :: shift) =>
    ⟨(Ranges.readRange points).1, (Ranges.readRange points).2, step.toNat - 48,
      Ranges.readHex shift⟩
  | some (points, step :: _ :: shift) =>
    ⟨(Ranges.readRange points).1, (Ranges.readRange points).2, step.toNat - 48,
      -(Ranges.readHex shift : Int)⟩
  | _ => ⟨0, 0, 1, 0⟩

def apply (runs : List CaseRun) (c : Char) : Char :=
  match runs.find? (·.covers c.toNat) with
  | some run => Char.ofNat (c.toNat + run.shift).toNat
  | none => c

end CaseRun

/-- Lower case outside ASCII. -/
def lowerRuns : List CaseRun := (Ranges.tableWords
  ["C0-D6/1+20 D8-DE/1+20 100-12E/2+1 132-136/2+1 139-147/2+1 14A-176/2+1 178-178/1~79 179-17D/2+1",
   "181-181/1+D2 182-184/2+1 186-186/1+CE 187-187/1+1 189-18A/1+CD 18B-18B/1+1 18E-18E/1+4F",
   "18F-18F/1+CA 190-190/1+CB 191-191/1+1 193-193/1+CD 194-194/1+CF 196-196/1+D3 197-197/1+D1",
   "198-198/1+1 19C-19C/1+D3 19D-19D/1+D5 19F-19F/1+D6 1A0-1A4/2+1 1A6-1A6/1+DA 1A7-1A7/1+1",
   "1A9-1A9/1+DA 1AC-1AC/1+1 1AE-1AE/1+DA 1AF-1AF/1+1 1B1-1B2/1+D9 1B3-1B5/2+1 1B7-1B7/1+DB",
   "1B8-1B8/1+1 1BC-1BC/1+1 1C4-1C4/1+2 1C5-1C5/1+1 1C7-1C7/1+2 1C8-1C8/1+1 1CA-1CA/1+2",
   "1CB-1DB/2+1 1DE-1EE/2+1 1F1-1F1/1+2 1F2-1F4/2+1 1F6-1F6/1~61 1F7-1F7/1~38 1F8-21E/2+1",
   "220-220/1~82 222-232/2+1 23A-23A/1+2A2B 23B-23B/1+1 23D-23D/1~A3 23E-23E/1+2A28 241-241/1+1",
   "243-243/1~C3 244-244/1+45 245-245/1+47 246-24E/2+1 370-372/2+1 376-376/1+1 37F-37F/1+74",
   "386-386/1+26 388-38A/1+25 38C-38C/1+40 38E-38F/1+3F 391-3A1/1+20 3A3-3AB/1+20 3CF-3CF/1+8",
   "3D8-3EE/2+1 3F4-3F4/1~3C 3F7-3F7/1+1 3F9-3F9/1~7 3FA-3FA/1+1 3FD-3FF/1~82 400-40F/1+50",
   "410-42F/1+20 460-480/2+1 48A-4BE/2+1 4C0-4C0/1+F 4C1-4CD/2+1 4D0-52E/2+1 531-556/1+30",
   "10A0-10C5/1+1C60 10C7-10C7/1+1C60 10CD-10CD/1+1C60 13A0-13EF/1+97D0 13F0-13F5/1+8",
   "1C90-1CBA/1~BC0 1CBD-1CBF/1~BC0 1E00-1E94/2+1 1E9E-1E9E/1~1DBF 1EA0-1EFE/2+1 1F08-1F0F/1~8",
   "1F18-1F1D/1~8 1F28-1F2F/1~8 1F38-1F3F/1~8 1F48-1F4D/1~8 1F59-1F5F/2~8 1F68-1F6F/1~8",
   "1F88-1F8F/1~8 1F98-1F9F/1~8 1FA8-1FAF/1~8 1FB8-1FB9/1~8 1FBA-1FBB/1~4A 1FBC-1FBC/1~9",
   "1FC8-1FCB/1~56 1FCC-1FCC/1~9 1FD8-1FD9/1~8 1FDA-1FDB/1~64 1FE8-1FE9/1~8 1FEA-1FEB/1~70",
   "1FEC-1FEC/1~7 1FF8-1FF9/1~80 1FFA-1FFB/1~7E 1FFC-1FFC/1~9 2126-2126/1~1D5D 212A-212A/1~20BF",
   "212B-212B/1~2046 2132-2132/1+1C 2160-216F/1+10 2183-2183/1+1 24B6-24CF/1+1A 2C00-2C2F/1+30",
   "2C60-2C60/1+1 2C62-2C62/1~29F7 2C63-2C63/1~EE6 2C64-2C64/1~29E7 2C67-2C6B/2+1 2C6D-2C6D/1~2A1C",
   "2C6E-2C6E/1~29FD 2C6F-2C6F/1~2A1F 2C70-2C70/1~2A1E 2C72-2C72/1+1 2C75-2C75/1+1",
   "2C7E-2C7F/1~2A3F 2C80-2CE2/2+1 2CEB-2CED/2+1 2CF2-2CF2/1+1 A640-A66C/2+1 A680-A69A/2+1",
   "A722-A72E/2+1 A732-A76E/2+1 A779-A77B/2+1 A77D-A77D/1~8A04 A77E-A786/2+1 A78B-A78B/1+1",
   "A78D-A78D/1~A528 A790-A792/2+1 A796-A7A8/2+1 A7AA-A7AA/1~A544 A7AB-A7AB/1~A54F",
   "A7AC-A7AC/1~A54B A7AD-A7AD/1~A541 A7AE-A7AE/1~A544 A7B0-A7B0/1~A512 A7B1-A7B1/1~A52A",
   "A7B2-A7B2/1~A515 A7B3-A7B3/1+3A0 A7B4-A7C2/2+1 A7C4-A7C4/1~30 A7C5-A7C5/1~A543",
   "A7C6-A7C6/1~8A38 A7C7-A7C9/2+1 A7D0-A7D0/1+1 A7D6-A7D8/2+1 A7F5-A7F5/1+1 FF21-FF3A/1+20",
   "10400-10427/1+28 104B0-104D3/1+28 10570-1057A/1+27 1057C-1058A/1+27 1058C-10592/1+27",
   "10594-10595/1+27 10C80-10CB2/1+40 118A0-118BF/1+20 16E40-16E5F/1+20 1E900-1E921/1+22"]).map
  CaseRun.read

/-- Upper case outside ASCII, for letters with one upper case letter. -/
def upperRuns : List CaseRun := (Ranges.tableWords
  ["B5-B5/1+2E7 E0-F6/1~20 F8-FE/1~20 FF-FF/1+79 101-12F/2~1 131-131/1~E8 133-137/2~1 13A-148/2~1",
   "14B-177/2~1 17A-17E/2~1 17F-17F/1~12C 180-180/1+C3 183-185/2~1 188-188/1~1 18C-18C/1~1",
   "192-192/1~1 195-195/1+61 199-199/1~1 19A-19A/1+A3 19E-19E/1+82 1A1-1A5/2~1 1A8-1A8/1~1",
   "1AD-1AD/1~1 1B0-1B0/1~1 1B4-1B6/2~1 1B9-1B9/1~1 1BD-1BD/1~1 1BF-1BF/1+38 1C5-1C5/1~1",
   "1C6-1C6/1~2 1C8-1C8/1~1 1C9-1C9/1~2 1CB-1CB/1~1 1CC-1CC/1~2 1CE-1DC/2~1 1DD-1DD/1~4F",
   "1DF-1EF/2~1 1F2-1F2/1~1 1F3-1F3/1~2 1F5-1F5/1~1 1F9-21F/2~1 223-233/2~1 23C-23C/1~1",
   "23F-240/1+2A3F 242-242/1~1 247-24F/2~1 250-250/1+2A1F 251-251/1+2A1C 252-252/1+2A1E",
   "253-253/1~D2 254-254/1~CE 256-257/1~CD 259-259/1~CA 25B-25B/1~CB 25C-25C/1+A54F 260-260/1~CD",
   "261-261/1+A54B 263-263/1~CF 265-265/1+A528 266-266/1+A544 268-268/1~D1 269-269/1~D3",
   "26A-26A/1+A544 26B-26B/1+29F7 26C-26C/1+A541 26F-26F/1~D3 271-271/1+29FD 272-272/1~D5",
   "275-275/1~D6 27D-27D/1+29E7 280-280/1~DA 282-282/1+A543 283-283/1~DA 287-287/1+A52A",
   "288-288/1~DA 289-289/1~45 28A-28B/1~D9 28C-28C/1~47 292-292/1~DB 29D-29D/1+A515 29E-29E/1+A512",
   "345-345/1+54 371-373/2~1 377-377/1~1 37B-37D/1+82 3AC-3AC/1~26 3AD-3AF/1~25 3B1-3C1/1~20",
   "3C2-3C2/1~1F 3C3-3CB/1~20 3CC-3CC/1~40 3CD-3CE/1~3F 3D0-3D0/1~3E 3D1-3D1/1~39 3D5-3D5/1~2F",
   "3D6-3D6/1~36 3D7-3D7/1~8 3D9-3EF/2~1 3F0-3F0/1~56 3F1-3F1/1~50 3F2-3F2/1+7 3F3-3F3/1~74",
   "3F5-3F5/1~60 3F8-3F8/1~1 3FB-3FB/1~1 430-44F/1~20 450-45F/1~50 461-481/2~1 48B-4BF/2~1",
   "4C2-4CE/2~1 4CF-4CF/1~F 4D1-52F/2~1 561-586/1~30 10D0-10FA/1+BC0 10FD-10FF/1+BC0 13F8-13FD/1~8",
   "1C80-1C80/1~186E 1C81-1C81/1~186D 1C82-1C82/1~1864 1C83-1C84/1~1862 1C85-1C85/1~1863",
   "1C86-1C86/1~185C 1C87-1C87/1~1825 1C88-1C88/1+89C2 1D79-1D79/1+8A04 1D7D-1D7D/1+EE6",
   "1D8E-1D8E/1+8A38 1E01-1E95/2~1 1E9B-1E9B/1~3B 1EA1-1EFF/2~1 1F00-1F07/1+8 1F10-1F15/1+8",
   "1F20-1F27/1+8 1F30-1F37/1+8 1F40-1F45/1+8 1F51-1F57/2+8 1F60-1F67/1+8 1F70-1F71/1+4A",
   "1F72-1F75/1+56 1F76-1F77/1+64 1F78-1F79/1+80 1F7A-1F7B/1+70 1F7C-1F7D/1+7E 1FB0-1FB1/1+8",
   "1FBE-1FBE/1~1C25 1FD0-1FD1/1+8 1FE0-1FE1/1+8 1FE5-1FE5/1+7 214E-214E/1~1C 2170-217F/1~10",
   "2184-2184/1~1 24D0-24E9/1~1A 2C30-2C5F/1~30 2C61-2C61/1~1 2C65-2C65/1~2A2B 2C66-2C66/1~2A28",
   "2C68-2C6C/2~1 2C73-2C73/1~1 2C76-2C76/1~1 2C81-2CE3/2~1 2CEC-2CEE/2~1 2CF3-2CF3/1~1",
   "2D00-2D25/1~1C60 2D27-2D27/1~1C60 2D2D-2D2D/1~1C60 A641-A66D/2~1 A681-A69B/2~1 A723-A72F/2~1",
   "A733-A76F/2~1 A77A-A77C/2~1 A77F-A787/2~1 A78C-A78C/1~1 A791-A793/2~1 A794-A794/1+30",
   "A797-A7A9/2~1 A7B5-A7C3/2~1 A7C8-A7CA/2~1 A7D1-A7D1/1~1 A7D7-A7D9/2~1 A7F6-A7F6/1~1",
   "AB53-AB53/1~3A0 AB70-ABBF/1~97D0 FF41-FF5A/1~20 10428-1044F/1~28 104D8-104FB/1~28",
   "10597-105A1/1~27 105A3-105B1/1~27 105B3-105B9/1~27 105BB-105BC/1~27 10CC0-10CF2/1~40",
   "118C0-118DF/1~20 16E60-16E7F/1~20 1E922-1E943/1~22"]).map CaseRun.read

/-- Letters whose upper case is several letters. -/
def wideUpper : List (Nat × Text) := (Ranges.tableWords
  ["DF=53.53 149=2BC.4E 1F0=4A.30C 390=399.308.301 3B0=3A5.308.301 587=535.552 1E96=48.331",
   "1E97=54.308 1E98=57.30A 1E99=59.30A 1E9A=41.2BE 1F50=3A5.313 1F52=3A5.313.300 1F54=3A5.313.301",
   "1F56=3A5.313.342 1F80=1F08.399 1F81=1F09.399 1F82=1F0A.399 1F83=1F0B.399 1F84=1F0C.399",
   "1F85=1F0D.399 1F86=1F0E.399 1F87=1F0F.399 1F88=1F08.399 1F89=1F09.399 1F8A=1F0A.399",
   "1F8B=1F0B.399 1F8C=1F0C.399 1F8D=1F0D.399 1F8E=1F0E.399 1F8F=1F0F.399 1F90=1F28.399",
   "1F91=1F29.399 1F92=1F2A.399 1F93=1F2B.399 1F94=1F2C.399 1F95=1F2D.399 1F96=1F2E.399",
   "1F97=1F2F.399 1F98=1F28.399 1F99=1F29.399 1F9A=1F2A.399 1F9B=1F2B.399 1F9C=1F2C.399",
   "1F9D=1F2D.399 1F9E=1F2E.399 1F9F=1F2F.399 1FA0=1F68.399 1FA1=1F69.399 1FA2=1F6A.399",
   "1FA3=1F6B.399 1FA4=1F6C.399 1FA5=1F6D.399 1FA6=1F6E.399 1FA7=1F6F.399 1FA8=1F68.399",
   "1FA9=1F69.399 1FAA=1F6A.399 1FAB=1F6B.399 1FAC=1F6C.399 1FAD=1F6D.399 1FAE=1F6E.399",
   "1FAF=1F6F.399 1FB2=1FBA.399 1FB3=391.399 1FB4=386.399 1FB6=391.342 1FB7=391.342.399",
   "1FBC=391.399 1FC2=1FCA.399 1FC3=397.399 1FC4=389.399 1FC6=397.342 1FC7=397.342.399",
   "1FCC=397.399 1FD2=399.308.300 1FD3=399.308.301 1FD6=399.342 1FD7=399.308.342 1FE2=3A5.308.300",
   "1FE3=3A5.308.301 1FE4=3A1.313 1FE6=3A5.342 1FE7=3A5.308.342 1FF2=1FFA.399 1FF3=3A9.399",
   "1FF4=38F.399 1FF6=3A9.342 1FF7=3A9.342.399 1FFC=3A9.399 FB00=46.46 FB01=46.49 FB02=46.4C",
   "FB03=46.46.49 FB04=46.46.4C FB05=53.54 FB06=53.54 FB13=544.546 FB14=544.535 FB15=544.53B",
   "FB16=54E.546 FB17=544.53D"]).map fun entry =>
  match cut? ['='] entry with
  | some (point, image) =>
    (Ranges.readHex point, (splitOn '.' image).map fun p => Char.ofNat (Ranges.readHex p))
  | none => (0, [])

/-- One letter to one letter; the dotted capital I becomes a plain i. -/
def simpleLower (c : Char) : Char :=
  if isAsciiUpper c then Char.ofNat (c.toNat + 32)
  else if isAscii c then c
  else if c.toNat == 0x130 then 'i'
  else CaseRun.apply lowerRuns c

def upperChar (c : Char) : Text :=
  if isAsciiLower c then [Char.ofNat (c.toNat - 32)]
  else if isAscii c then [c]
  else match wideUpper.find? (·.1 == c.toNat) with
    | some (_, image) => image
    | none => [CaseRun.apply upperRuns c]

def upper (t : Text) : Text := t.flatMap upperChar

/-- Letters that have a case, modifiers apart. -/
def casedRanges : Ranges := Ranges.read
  ["41-5A 61-7A AA B5 BA C0-D6 D8-F6 F8-1BA 1BC-1BF 1C4-293 295-2AF 370-373 376-377 37B-37D 37F",
   "386 388-38A 38C 38E-3A1 3A3-3F5 3F7-481 48A-52F 531-556 560-588 10A0-10C5 10C7 10CD 10D0-10FA",
   "10FD-10FF 13A0-13F5 13F8-13FD 1C80-1C88 1C90-1CBA 1CBD-1CBF 1D00-1D2B 1D6B-1D77 1D79-1D9A",
   "1E00-1F15 1F18-1F1D 1F20-1F45 1F48-1F4D 1F50-1F57 1F59 1F5B 1F5D 1F5F-1F7D 1F80-1FB4 1FB6-1FBC",
   "1FBE 1FC2-1FC4 1FC6-1FCC 1FD0-1FD3 1FD6-1FDB 1FE0-1FEC 1FF2-1FF4 1FF6-1FFC 2102 2107 210A-2113",
   "2115 2119-211D 2124 2126 2128 212A-212D 212F-2134 2139 213C-213F 2145-2149 214E 2160-217F",
   "2183-2184 24B6-24E9 2C00-2C7B 2C7E-2CE4 2CEB-2CEE 2CF2-2CF3 2D00-2D25 2D27 2D2D A640-A66D",
   "A680-A69B A722-A76F A771-A787 A78B-A78E A790-A7CA A7D0-A7D1 A7D3 A7D5-A7D9 A7F5-A7F6 A7FA",
   "AB30-AB5A AB60-AB68 AB70-ABBF FB00-FB06 FB13-FB17 FF21-FF3A FF41-FF5A 10400-1044F 104B0-104D3",
   "104D8-104FB 10570-1057A 1057C-1058A 1058C-10592 10594-10595 10597-105A1 105A3-105B1",
   "105B3-105B9 105BB-105BC 10C80-10CB2 10CC0-10CF2 118A0-118DF 16E40-16E7F 1D400-1D454",
   "1D456-1D49C 1D49E-1D49F 1D4A2 1D4A5-1D4A6 1D4A9-1D4AC 1D4AE-1D4B9 1D4BB 1D4BD-1D4C3",
   "1D4C5-1D505 1D507-1D50A 1D50D-1D514 1D516-1D51C 1D51E-1D539 1D53B-1D53E 1D540-1D544 1D546",
   "1D54A-1D550 1D552-1D6A5 1D6A8-1D6C0 1D6C2-1D6DA 1D6DC-1D6FA 1D6FC-1D714 1D716-1D734",
   "1D736-1D74E 1D750-1D76E 1D770-1D788 1D78A-1D7A8 1D7AA-1D7C2 1D7C4-1D7CB 1DF00-1DF09",
   "1DF0B-1DF1E 1E900-1E943 1F130-1F149 1F150-1F169 1F170-1F189"]

/-- Characters that are passed over in the search for the end of a word. -/
def caseIgnorableRanges : Ranges := Ranges.read
  ["27 2E 3A 5E 60 A8 AD AF B4 B7-B8 2B0-36F 374-375 37A 384-385 387 483-489 559 55F 591-5BD 5BF",
   "5C1-5C2 5C4-5C5 5C7 5F4 600-605 610-61A 61C 640 64B-65F 670 6D6-6DD 6DF-6E8 6EA-6ED 70F 711",
   "730-74A 7A6-7B0 7EB-7F5 7FA 7FD 816-82D 859-85B 888 890-891 898-89F 8C9-902 93A 93C 941-948",
   "94D 951-957 962-963 971 981 9BC 9C1-9C4 9CD 9E2-9E3 9FE A01-A02 A3C A41-A42 A47-A48 A4B-A4D",
   "A51 A70-A71 A75 A81-A82 ABC AC1-AC5 AC7-AC8 ACD AE2-AE3 AFA-AFF B01 B3C B3F B41-B44 B4D",
   "B55-B56 B62-B63 B82 BC0 BCD C00 C04 C3C C3E-C40 C46-C48 C4A-C4D C55-C56 C62-C63 C81 CBC CBF",
   "CC6 CCC-CCD CE2-CE3 D00-D01 D3B-D3C D41-D44 D4D D62-D63 D81 DCA DD2-DD4 DD6 E31 E34-E3A",
   "E46-E4E EB1 EB4-EBC EC6 EC8-ECD F18-F19 F35 F37 F39 F71-F7E F80-F84 F86-F87 F8D-F97 F99-FBC",
   "FC6 102D-1030 1032-1037 1039-103A 103D-103E 1058-1059 105E-1060 1071-1074 1082 1085-1086 108D",
   "109D 10FC 135D-135F 1712-1714 1732-1733 1752-1753 1772-1773 17B4-17B5 17B7-17BD 17C6 17C9-17D3",
   "17D7 17DD 180B-180F 1843 1885-1886 18A9 1920-1922 1927-1928 1932 1939-193B 1A17-1A18 1A1B 1A56",
   "1A58-1A5E 1A60 1A62 1A65-1A6C 1A73-1A7C 1A7F 1AA7 1AB0-1ACE 1B00-1B03 1B34 1B36-1B3A 1B3C 1B42",
   "1B6B-1B73 1B80-1B81 1BA2-1BA5 1BA8-1BA9 1BAB-1BAD 1BE6 1BE8-1BE9 1BED 1BEF-1BF1 1C2C-1C33",
   "1C36-1C37 1C78-1C7D 1CD0-1CD2 1CD4-1CE0 1CE2-1CE8 1CED 1CF4 1CF8-1CF9 1D2C-1D6A 1D78 1D9B-1DFF",
   "1FBD 1FBF-1FC1 1FCD-1FCF 1FDD-1FDF 1FED-1FEF 1FFD-1FFE 200B-200F 2018-2019 2024 2027 202A-202E",
   "2060-2064 2066-206F 2071 207F 2090-209C 20D0-20F0 2C7C-2C7D 2CEF-2CF1 2D6F 2D7F 2DE0-2DFF 2E2F",
   "3005 302A-302D 3031-3035 303B 3099-309E 30FC-30FE A015 A4F8-A4FD A60C A66F-A672 A674-A67D A67F",
   "A69C-A69F A6F0-A6F1 A700-A721 A770 A788-A78A A7F2-A7F4 A7F8-A7F9 A802 A806 A80B A825-A826 A82C",
   "A8C4-A8C5 A8E0-A8F1 A8FF A926-A92D A947-A951 A980-A982 A9B3 A9B6-A9B9 A9BC-A9BD A9CF A9E5-A9E6",
   "AA29-AA2E AA31-AA32 AA35-AA36 AA43 AA4C AA70 AA7C AAB0 AAB2-AAB4 AAB7-AAB8 AABE-AABF AAC1 AADD",
   "AAEC-AAED AAF3-AAF4 AAF6 AB5B-AB5F AB69-AB6B ABE5 ABE8 ABED FB1E FBB2-FBC2 FE00-FE0F FE13",
   "FE20-FE2F FE52 FE55 FEFF FF07 FF0E FF1A FF3E FF40 FF70 FF9E-FF9F FFE3 FFF9-FFFB 101FD 102E0",
   "10376-1037A 10780-10785 10787-107B0 107B2-107BA 10A01-10A03 10A05-10A06 10A0C-10A0F",
   "10A38-10A3A 10A3F 10AE5-10AE6 10D24-10D27 10EAB-10EAC 10F46-10F50 10F82-10F85 11001",
   "11038-11046 11070 11073-11074 1107F-11081 110B3-110B6 110B9-110BA 110BD 110C2 110CD",
   "11100-11102 11127-1112B 1112D-11134 11173 11180-11181 111B6-111BE 111C9-111CC 111CF",
   "1122F-11231 11234 11236-11237 1123E 112DF 112E3-112EA 11300-11301 1133B-1133C 11340",
   "11366-1136C 11370-11374 11438-1143F 11442-11444 11446 1145E 114B3-114B8 114BA 114BF-114C0",
   "114C2-114C3 115B2-115B5 115BC-115BD 115BF-115C0 115DC-115DD 11633-1163A 1163D 1163F-11640",
   "116AB 116AD 116B0-116B5 116B7 1171D-1171F 11722-11725 11727-1172B 1182F-11837 11839-1183A",
   "1193B-1193C 1193E 11943 119D4-119D7 119DA-119DB 119E0 11A01-11A0A 11A33-11A38 11A3B-11A3E",
   "11A47 11A51-11A56 11A59-11A5B 11A8A-11A96 11A98-11A99 11C30-11C36 11C38-11C3D 11C3F",
   "11C92-11CA7 11CAA-11CB0 11CB2-11CB3 11CB5-11CB6 11D31-11D36 11D3A 11D3C-11D3D 11D3F-11D45",
   "11D47 11D90-11D91 11D95 11D97 11EF3-11EF4 13430-13438 16AF0-16AF4 16B30-16B36 16B40-16B43",
   "16F4F 16F8F-16F9F 16FE0-16FE1 16FE3-16FE4 1AFF0-1AFF3 1AFF5-1AFFB 1AFFD-1AFFE 1BC9D-1BC9E",
   "1BCA0-1BCA3 1CF00-1CF2D 1CF30-1CF46 1D167-1D169 1D173-1D182 1D185-1D18B 1D1AA-1D1AD",
   "1D242-1D244 1DA00-1DA36 1DA3B-1DA6C 1DA75 1DA84 1DA9B-1DA9F 1DAA1-1DAAF 1E000-1E006",
   "1E008-1E018 1E01B-1E021 1E023-1E024 1E026-1E02A 1E130-1E13D 1E2AE 1E2EC-1E2EF 1E8D0-1E8D6",
   "1E944-1E94B 1F3FB-1F3FF E0001 E0020-E007F E0100-E01EF"]

/-- Whether the nearest character that is not passed over is a cased letter. -/
def meetsCased (t : Text) : Bool :=
  match t.dropWhile fun c => caseIgnorableRanges.contains c.toNat with
  | c :: _ => casedRanges.contains c.toNat
  | [] => false

/-- The lower case of `c` after the reversed text `before` and in front of `rest`. -/
def lowerChar (before : Text) (c : Char) (rest : Text) : Text :=
  if isAscii c then [simpleLower c]
  else if c.toNat == 0x130 then ['i', Char.ofNat 0x307]
  else if c.toNat == 0x3A3 && meetsCased before && !meetsCased rest then [Char.ofNat 0x3C2]
  else [simpleLower c]

def lowerFrom (before : Text) : Text → Text
  | [] => []
  | c :: rest => lowerChar before c rest ++ lowerFrom (c :: before) rest

def lower (t : Text) : Text := lowerFrom [] t

/-- Groups of lower case letters that stand for each other when case is disregarded. -/
def caseKin : List (List Nat) :=
  [[0x69, 0x131], [0x73, 0x17F], [0xB5, 0x3BC], [0x345, 0x3B9, 0x1FBE], [0x390, 0x1FD3], [0x3B0,
   0x1FE3], [0x3B2, 0x3D0], [0x3B5, 0x3F5], [0x3B8, 0x3D1], [0x3BA, 0x3F0], [0x3C0, 0x3D6],
   [0x3C1, 0x3F1], [0x3C2, 0x3C3], [0x3C6, 0x3D5], [0x432, 0x1C80], [0x434, 0x1C81], [0x43E,
   0x1C82], [0x441, 0x1C83], [0x442, 0x1C84, 0x1C85], [0x44A, 0x1C86], [0x463, 0x1C87], [0x1C88,
   0xA64B], [0x1E61, 0x1E9B], [0xFB05, 0xFB06]]

/-- The lower case letters that count as equal to the lower case letter `c`. -/
def kin (c : Char) : List Char :=
  c :: ((caseKin.filter (·.contains c.toNat)).flatten.filter (· != c.toNat)).map Char.ofNat

/-- The characters whose simple lower case is `c`. -/
def lowerOrigins (c : Char) : List Char :=
  let moved := (lowerRuns.filterMap fun run =>
    let origin := ((c.toNat : Int) - run.shift).toNat
    if run.covers origin then some (Char.ofNat origin) else none)
  let ascii := if isAsciiLower c then [Char.ofNat (c.toNat - 32)] else []
  let dotted := if c = 'i' then [Char.ofNat 0x130] else []
  ((c :: ascii) ++ dotted ++ moved).filter fun o => simpleLower o == c

/-- Every character that equals `c` when case is disregarded. -/
def caseVariants (c : Char) : List Char := (kin (simpleLower c)).flatMap lowerOrigins

end TodoTracker.Text
