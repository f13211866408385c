import AttrGrammar.Text.Unicode.Table

/-!
The classes of characters by which texts are broken into graphemes, words and sentences.

Characters without a class have the number behind the last one.
-/

namespace AttrGrammar.Text.Unicode

def graphemeBreakNames : List (List String) := [
  ["cr"], ["cn", "control"], ["ex", "extend"], ["l"], ["lf"], ["lv"], ["lvt"], ["pp", "prepend"],
  ["ri", "regionalindicator"], ["sm", "spacingmark"], ["t"], ["v"], ["zwj"]]

def graphemeBreaks : Runs := runsOf [
  "A1142110I1YVDX11DD11oIDZG2eJD72e7DXD21D121D221D221D12XOD67ADB21D11XEDL2GD12Z5D72171D622D221D",
  "42X1D171D12UDR2YRDB2XQD929D12OD421D921D321D52XBD32XKD275D92XADO217X0219XMD1219121D3982491229",
  "1D72AD22TD1229XOD121D1229422D292D29129D12AD22QD122D2219XOD121D39224D222D323D12UD223D12BD2219",
  "XOD121D39521D22191D2912KD22MD621D1229XOD121D2219422D292D29127D32AD22UD12XRD121912293D391D391",
  "29D12X8D123912XND121D32491D321D427D22BD22TD1229XOD121D19221912291D321D427D22BD22FD19CD2229XN",
  "D221D1229421D391D3912178D12AD22TD1229Y6D124D1229321D121D7912ID29XTD121D1972CD82Z2D121D1992BD",
  "72Y9D22RD121D121D124D29XHDE219521D225DB21DX429D12Z6D4219621D222922ND29224D32GD42DD121D19226D",
  "12FD12Z2DZ03Y8BYOAgTD32zID42SD32TD22UD22Y0D221972891229B29D12XDD321112ZLD22X2D12ZMD324922394",
  "D29126932cRD222912XPD191219721D121D122D8269A22D12XGDV2XHD4219XFDA24932X6D92CD2219UD19422962X",
  "OD12192239121952XGD89822922aOD321DD219724D126D122D1922c6DY02mBD11121C21OD71XHDG1Z0DX12Y-UD32",
  "aDD12Z0DX02nAD62Z9D22zkKD421DA2X0D22YGD22eGD123D124D12ND2922194D12YJD29XIDG922QDI2DD12X6D82P",
  "DB21912CDT33D3219XFD12294229222912X4D12Y3D6229222922CD128D1219XED12XJD121D322D225D221D12X9D1",
  "922295D1912dCD29122912291D1912ID15R615R615R615R615R615R615R615R615R615R615R615R615R615R615R6",
  "15R615R615R615R615R615R615R615R615R615R615R615R615R615R615R615R615R615R615R615R615R615R615R6",
  "15R615R615R615R615R615R615R615R615R615R615R615R615R615R615R615R615R615R615R615R615R615R615R6",
  "15R615R615R615R615R615R615R615R615R615R615R615R615R615R615R615R615R615R615R615R615R615R615R6",
  "15R615R615R615R615R615R615R615R615R615R615R615R615R615R615R615R615R615R615R615R615R615R615R6",
  "15R615R615R615R615R615R615R615R615R615R615R615R615R615R615R615R615R615R615R615R615R615R615R6",
  "15R615R615R615R615R615R615R615R615R615R615R615R615R615R615R615R615R615R615R615R615R615R615R6",
  "15R615R615R615R615R615R615R615R615R615R615R615R615R615R615R615R615R615R615R615R615R615R615R6",
  "15R615R615R615R615R615R615R615R615R615R615R615R615R615R615R615R615R615R615R615R615R615R615R6",
  "15R615R615R615R615R615R615R615R615R615R615R615R615R615R615R615R615R615R615R615R615R615R615R6",
  "15R615R615R615R615R615R615R615R615R615R615R615R615R615R615R615R615R615R615R615R615R615R615R6",
  "15R615R615R615R615R615R615R615R615R615R615R615R615R615R615R615R615R615R615R615R615R615R615R6",
  "15R615R615R615R615R615R615R615R615R615R615R615R615R615R615R615R615R615R615R615R615R615R615R6",
  "15R615R615R615R615R615R615R615R615R615R615R615R615R615R615R615R615R615R615R615R615R615R615R6",
  "15R615R615R615R615R615R615R615R615R615R615R615R615R615R615R615R615R615R615R615R615R615R615R6",
  "15R615R615R615R615R615R615R615R615R615R615R615R615R615R615R615R615R615R615R615R615R615R615R6",
  "15R615R615R615R615R615R615R615R615R615R615R615R615R615R615R615R615R615R615R615R615R615R615R6",
  "15R615R615R615R615R615R615R615R615R615R615R615R615R615R615R615R6CDNB4DXHAcv2D12t1DG2GDG2cFD1",
  "1aUD22YGDC1m1D12d2D12aLD52Xq6D321D225D42X8D324D12b5D22nTD42Y1D52fTD22YFD42Y6DB2XHD42ZQD19121",
  "9XLDF2X9D122D22AD3219XDD394229222D174D12AD17XID32X4D521982GD29XCD12CD2219XGD399219121D275D42",
  "1D1912YSD393229426D122D12aTD123982LD2229XND221D121912492D292D29129D12AD292D723D52Y3D1229621D",
  "122D121D32191D29321712ED22YID398229321912ND12YHD1229621912291219221922dBD1229422D49221922RD2",
  "2YID398229121922ZAD1219122982Z5D1219122D421952e0D39921922dLD12591D292D421719171912aDD39422D2",
  "249123D19SDA2X8D621917428D129D622932X8D67D21922iLD19721D621912YIDM21D197219221922ZQD623D121D",
  "221D721712Y2D591D221D29121912gRD22299D221719XGD29523D2932ND12bcLDG1126DF2hc8DC23932Yk0D52XRD",
  "72nCD1B3D4Bl4D121DXN97D42YHD12BD22pbBD221D41aoSDXE22DN2mUD523D6281822D72UD42aKD32XzRDXN24DXI",
  "28D12ED12MD521DF2XgGD721DH22D721D221D52Z4D12b0D72hND12XTD42lSD42dUD22t0D72ZDD72YaRDQ8lRD52uZ",
  "W0DX01Z02a01dG2ZmG1byW0D"]

def wordBreakNames : List (List String) := [
  ["le", "aletter"], ["cr"], ["dq", "doublequote"], ["extend"], ["ex", "extendnumlet"],
  ["fo", "format"], ["hl", "hebrewletter"], ["ka", "katakana"], ["lf"], ["ml", "midletter"],
  ["mn", "midnum"], ["mb", "midnumlet"], ["nl", "newline"], ["nu", "numeric"],
  ["ri", "regionalindicator"], ["sq", "singlequote"], ["wsegspace"], ["zwj"]]

def wordBreaks : Runs := runsOf [
  "AI182C11II1G1I124I1F4I1A1I1B1IAD191A5IQ04I141IQ0AI1CX4I102I157I101I192I105IN01IV01Il006IX20Z",
  "G3501I202I401A106I1019301I101IK01IYJ01IaB01I73b601IX602I401I1019X901A106IXD31I131I231I231I13",
  "8IR64I461019BI656I2A2IB31I153IXB0L3AD1I1D1A1I2013Z301I1073151I6320231I4320AD302I10FI151013U0",
  "R32IYP0B310EIADX1093202I1A1I102I132IM043109310331053IIP0334IB05IO01I601I255I93XA0O315X13XM03",
  "310I31073A0232IAD1IG0331I802I202IM01I701I103I402I1310732I232I33108I134I201I30232IAD20AI101I1",
  "32I331I604I202IM01I701I201I201I202I131I534I232I333I137I401I107IAD233013BI331I901I301IM01I701",
  "I201I502I1310831I331I332I10FI20232IAD9I10631I331I802I202IM01I701I201I502I1310732I232I337I334",
  "I201I30232IAD1I10GI13101I603I301I403I201I101I203I203I303IC04I533I331I432I106I13EIADGI53801I3",
  "01IN01IG02I1310731I331I437I231I302I102I20232IADGI10331I801I301IN01IA01I502I1310731I331I437I2",
  "36I201I20232IAD1I2013CI43901I301IX902310731I331I43105I30137I30232IADAI601I331II03IO01I901I10",
  "2I703I134I631I131I836IAD2I23XTI132I73CI831IADYNI132I93BI731IADX6I10NI236IADBI131I131I134I238",
  "01IX404IK31I2350B31IX439I13Z4IK31IADCI434I331I332I733I43DIC31I13AD432IX601I105I102IXB01IgD01",
  "I402I701I101I402IX901I402IX101I402I701I101I402IF01IXP01I402IY302I33X0IG0GIYM02I603IpC02IH01G",
  "Q05IYB03IB07II0439IJ033BII023CID01I301I23Y0IX039I132IADX1I331513AD6IYP07I5023X2013105IY60AIV",
  "01IC34IC3AIADa0IADX6IN053XPIA31IT32I13AD6IADMIV3XHI53XF0H3803IADHI93CI33U0D320ADXC0E3CIX40K3",
  "8IAD3I30ADX402IB05IXB02I30GI331IL3401360132033105Ic00Y03eM02I602IX602I602I801I101I101I101IV0",
  "2IXL01I701I103I301I703I402I604ID05I301I703I7G1I3G1I131H258I2BAI1B2I192C5514FI243I1AFI14AI1G5",
  "51IA51I10DI10GID0XJIX13HI104I102IA01I103I506I101I101I101I401IB02I405I504I10HIX90vDIXK0XuMId5",
  "06I403320CIX601I105I102IXO07I10FI13N09I701I701I701I701I701I701I701I701IX03XFI10kGI1G4I10X4I6",
  "31I575I20YSI23273IYR71I475IXB01IYU0HIX00XGIG7cGIXF71IYO7xb8IXaD0Y3IXE02IeD03IG0AD20KIXF0431I",
  "A31IV023YG023MIc602I201I101I80LIG01330134013N0534I13JIXK0CI23XI0I3AIAD6II3603I101I2013ADS083",
  "2IN0D3CIT03I43XF0E3EI10ADBI13AIAD6IX90E39I301380232IADX1I33XII131I332I235I231I13UIB0532I3023",
  "AI602I602I609I701I701IXQ06IZJ0831I232IAD6Igz40CIN04IXH0cu4I70CI505I1613A61ID61I561I161I261I2",
  "61IA6Z20X1IhB0IIY002IXM0X8IC04IG31A2I191ABIG33I24OI341A1I1B1I1A19QI501Ia702I157I1B4I1A1I1B1I",
  "AD191A5IQ04I141IQ0BIXO723V03I602I602I602I30SI354IC01IQ01IJ01I201IF02IE0X2IZR0Y5IXL0a8I13a2IT",
  "03IXH0FI13VIX00DIU05IX60535IU02IX404I801I50XAIaU02IAD6IX404IX404IX808IXK0CIB01IF01I701I201IB",
  "01IF01I701I203IXK0CIfN09IM0AI80OI601IXA01I90Y5I602I101IXC01I203I102IN0AIN09IV0Y1IJ01I20AIM0A",
  "IQ0Y6IXO06I20Y0I10331I235I43401I301IT02I334I13X0IT03IT0X3I801IS023PIXM0AIM0AIJ0DII0ZEIY90XNI",
  "XJ0DIXJ0DIX40438IAD6IADS03I531IN0dQIXA01I233I20GI30XNI43T0AI108IM0B3VII043XAIL0RIN09I33XL0F3",
  "VIAD132023109I43XD0B32I154I13AI152IP07IAD6I33X40E31IAD4I1023108IX30132I109I33XG0E3404I431I23",
  "AD101I10X3II01IP0C36I132013XUI701I101I401IF01IA07IXF0C35IAD6I431I802I202IM01I701I201I501I231",
  "0732I232I332I106I135I50232I733I53BIA01I102I101IX601I10931I132I131I431I53101310DI23TIXL0I3405",
  "IAD4I1330UIXG0K3201I108IADb6IXF0732I93NI4023X2IXG0H33I10BIADX6IXB0D3107IAD6IKDXPIF34IADc6IXC",
  "0F3Z5IY00ADLI802I102I801I201IO0631I232I4310131023CIADY6I802IX70732I73101I1013RI10A3X80731043",
  "8I138I10B3XE0G33I10IIY90c7IX10FIAD6I901IX50831I8310FIADOIU02IM31IE3Y9I701I201IX60633I131I231",
  "I7310138IAD6I601I201IX00531I231I53107IADfMIJ0439I231013D01IX20733I53DIAD13YLI10YFIyQ0Z6IZF0H",
  "Ic40YoCIZ10FIXXG0G51360F3AIZyR05Io70crPIU0I3ADXs6InP07IV01IAD6IYF01IAD6IU02I53BIXG0739I40CIA",
  "D9IL05IJ0jGIXD03IADc6IY00a0IYB04I1310XN37I43D0Y0I201I1013BI23l-UI471I771I271I17eVI37XII17EI4",
  "7YqOIZB05ID03I907IA03I231I45aYCIADm6IXE32IN3mUI533I6385832I73UI43aKI33jRIYL01IY701I202I102I2",
  "02I401IC01I101I701IY101I402I801I701IS01I401I501I103I701IgK02IP01IP01IV01IP01IV01IP01IV01IP01",
  "IV01IP01I802IXIDm0IXN34IXI38I13EI13MI531IF3XYGIV06I60cLI731IH32I731I231I535IXU0X1I13ZGIXD03I",
  "73702IAD4I10g1IU013HIXC043ADkMIS043ADcMIU02310ADl5I701I401I201IF01Ic50BI73X9IY4073104IADXb6I",
  "401IR01I201I102I101IA01I401I101I106I104I101I101I101I301I201I102I101I101I101I101I101I201I102I",
  "401I701I401I401I101IA01IH05I301I501IH0pKIQ06IQ06IQ0YSIQElRI53X-GIADuXW7I15UIZ03a0IdG3b-mGI"]

def sentenceBreakNames : List (List String) := [
  ["at", "aterm"], ["cr"], ["cl", "close"], ["ex", "extend"], ["fo", "format"], ["lf"],
  ["lo", "lower"], ["nu", "numeric"], ["le", "oletter"], ["sc", "scontinue"], ["st", "sterm"],
  ["se", "sep"], ["sp"], ["up", "upper"]]

def sentenceBreaks : Runs := runsOf [
  "9E1C152C11IE1C1A124E322E29101EA7194E1A1EQD121E123EQ6121E127E1BQE1C9E16121E147E164E16124END1E",
  "7DO61E861D161D161D161D161D161D161D161D161D161D161D161D161D161D161D161D161D161D161D161D161D16",
  "1D161D161D161D161D161D161D261D161D161D161D161D161D161D161D261D161D161D161D161D161D161D161D16",
  "1D161D161D161D161D161D161D161D161D161D161D161D161D161D161D162D161D161D362D161D162D163D264D16",
  "2D163D362D162D161D161D162D161D261D162D163D161D162D26181D36482D162D162D161D161D161D161D161D16",
  "1D161D161D261D161D161D161D161D161D161D161D161D262D161D163D161D161D161D161D161D161D161D161D16",
  "1D161D161D161D161D161D161D161D161D161D161D161D161D161D161D161D161D161D161D161D161D762D162D26",
  "1D164D161D161D161D161DY5618X4678264EC8EE567E181E18HEZG31D161D16181E1D162E461E1D6E1D1E3D1E1D1",
  "E2D16HD1E9DX361D263D361D161D161D161D161D161D161D161D161D161D161D161D561D161E1D162D26XJDXG61D",
  "161D161D161D161D161D161D161D161D161D161D161D161D161D161D161D161D161E731D161D161D161D161D161D",
  "161D161D161D161D161D161D161D161D161D161D161D161D161D161D161D161D161D161D161D161D161D162D161D",
  "161D161D161D161D161D261D161D161D161D161D161D161D161D161D161D161D161D161D161D161D161D161D161D",
  "161D161D161D161D161D161D161D161D161D161D161D161D161D161D161D161D161D161D161D161D161D161D161D",
  "161D161D161D161D161D161D161D161EX6D2E183E192EX961A7EXD31E131E231E231E138ER84E58CE646E292EB31",
  "E143AXB8L3A71E271E2813Z381A1873141E6328231E4328A7382E183ACE141813U8R32EYP8B318EEA7X1893282E1",
  "91A182E132EM8431893183318539E1A1E1A3E2A1EP8334EB85EO81E681E245E93XA8O314X13XM83318I31873A823",
  "2AA71EG8331E882E282EM81E781E183E482E1318732E232E33188E134E281E38232EA728AE181E132E331E684E28",
  "2EM81E781E281E281E282E131E534E232E333E137E481E187EA7233813BE331E981E381EM81E781E281E582E1318",
  "831E331E332E18FE28232EA79E18631E331E882E282EM81E781E281E582E1318732E232E337E334E281E38232EA7",
  "1E18GE13181E683E381E483E281E181E283E283E383EC84E533E331E432E186E13EEA7GE53881E381EN81EG82E13",
  "18731E331E437E231E382E182E28232EA7GE18331E881E381EN81EA81E582E1318731E331E437E236E281E28232E",
  "A71E2813CE43981E381EX982318731E331E43185E38137E38232EA7AE681E331EI83EO81E981E182E783E134E631",
  "E131E836EA72E23DEXG81328735E78831EA7X7E281E181E581EO81E181EA8132893182E581E181E731EA72E48X0E",
  "18NE236EA7BE131E131E134223881EX484EK31E2358B31EX439E13XPEXB8K318A72A4E68434833183328733843D8",
  "C31813A7432EX6D1E1D5E1D2EXB81E16gC81E482E781E181E482EX981E482EX181E482E781E181E482EF81EXP81E",
  "482EY382E332E1A4E2ANEG8GEYMD2E663EpC81E1AH81CQ8223EYB83EB87EI8439EJ8332A9EI823CED81E381E23CE",
  "XK8X033E184E18132EA7OE191A4E191A1E331413A76EYP87E5823X2813185EY68AEV81EC34EC38E2AA7U82E58BEX",
  "C84EQ86EA7X6EN8534EXL8A31ET32E13A76EA7DE184A4EV3XHE53XF8H3881E2AA72A2E2ABE939E3A33U8D328A7XC",
  "8E3CEX48K33E2A3EA73E38A7X482A961D165EXB82E38GE331EL3481368132833185Ec06Y031D161D161D161D161D",
  "161D161D161D161D161D161D161D161D161D161D161D161D161D161D161D161D161D161D161D161D161D161D161D",
  "161D161D161D161D161D161D161D161D161D161D161D161D161D161D161D161D161D161D161D161D161D161D161D",
  "161D161D161D161D161D161D161D161D161D161D161D161D161D161D161D161D161D161D161D161D161D161D161D",
  "161D961D161D161D161D161D161D161D161D161D161D161D161D161D161D161D161D161D161D161D161D161D161D",
  "161D161D161D161D161D161D161D161D161D161D161D161D161D161D161D161D161D161D161D161D161D161D161D",
  "161D161D161D161D968D662E6D2E868D868D662E6D2E861E1D1E1D1E1D1E1D868DE62E868D868D868D561E265D1E",
  "163E361E265D3E462E264D4E865D5E361E265D3EBC1423243E293E824E103E2B541C9E221E2A7E223ALE1C541EA4",
  "1E16BE2216DE221ED6XJEX13HE1D4E1D2E163D263D161E1D3E5D6E1D1E1D1E1D1E4D1E164D1648162E262D5E1D46",
  "4E16HEGDG6381D1648hVE42TE22iBEQDQ6pHE627EE2YFE22VEA2iJEM2XVE42X0E22m2EXGDXG61D163D261D161D16",
  "1D164D161D261D863D161D161D161D161D161D161D161D161D161D161D161D161D161D161D161D161D161D161D16",
  "1D161D161D161D161D161D161D161D161D161D161D161D161D161D161D161D161D161D161D161D161D161D161D16",
  "1D161D161D161D161D161D161D161D266E1D161D16331D16CEX661E165E162EXO87E18FE13N89E781E781E781E78",
  "1E781E781E781E781EX03E2EE222EA24E1A18CE1A5E12GE2A82j3E1C191A2E38A22E821E321E98631E582E584EYM",
  "82E232E381EYQ81E485EXB81EYU8HEX08XGEG8m0Eck08Y0ErqD8Y3EXE81E1AeD81E2AG8A728KE1D161D161D161D1",
  "61D161D161D161D161D161D161D161D161D161D161D161D161D161D161D161D161D161D161D1618431EA31E181D1",
  "61D161D161D161D161D161D161D161D161D161D161D161D161D3623YG8231E1A3E1AVE982E1D161D161D161D161D",
  "161D161D361D161D161D161D161D161D161D161D161D161D161D161D161D161D161D161D161D161D161D161D161D",
  "161D161D161D161D161D161D161D161D161D161DA61D161D162D161D161D161D161D16182E1D161D16181D161D36",
  "1D161D161D161D161D161D161D161D161D161D165D165D161D161D161D161D161D161D161D164D161D162D162E1D",
  "161E161E161D161D161D161DLE361D161836781338134813N8534E13JEXK82E2A8E23XI8I38E2AA76EI3683E181E",
  "2813A7S8831E1AN8D3CET83E43XF8E37E2A5E18A76E5813A8A7581EX98E39E381388232EA73E3AN83E1833XI8131",
  "83328235823181318OE382EB8532A3823AE682E682E689E781E781EXB61EE66EYG6X38831A232EA76Egz48CEN84E",
  "XH8ce4EhE82EZA8X6E76CE565E1813A81ED81E581E181E281E281EZC8X1EhB822GEY082EXM8X8EC84EG3291E193E",
  "227EG31E292EG22E227E29102E192A19624E19CE581Ea782E141E1A6E222E29101EA7194E1A1EQD121E123EQ6121",
  "E121E221A22191EXO823V83E682E682E682E38SE344EC81EQ81EJ81E281EF82EE8X2EZR8Y5EXL8a8E13a2ET83EXH",
  "8FE13VEX08DEU85EX68535EU82EX484E881E58XAEX8DX86YE82EA76EX4D4EX464EX888EXK8CEBD1EFD1E7D1E2D1E",
  "B61EF61E761E263EXK8CEfN89EM8AE88OE1628361EXA61E96Y5E682E181EXC81E283E182EN8AEN89EV8Y1EJ81E28",
  "AEM8AEQ8Y6EXO86E28Y0E18331E235E43481E381ET82E334E13ME2A8ET83ET8X3E881ES823PEXM8AEM8AEJ8DEI8Z",
  "EEY98XNEXJDDEXJ6DEX48438EA76EA768MD3E531E18M6dQEXA81E233E28GE38XNE43T8AE188EM8B34E5AMEI8434A",
  "X6EL8REN89E33XL8F32ATEA7132823189E43XD8B32E144A13AE142EP87EA76E33X48E31EA71E3A1823188EX38132",
  "E189E33XG8E3482A2E431A23A7181E181E2AX0EI81EP8C32A1E2A1E132813XUE781E181E481EF81EA81A6EXF8C35",
  "EA76E431E882E282EM81E781E281E581E2318732E232E332E186E135E58232E733E53BEA81E182E181EX681E1893",
  "1E132E131E431E531813182ABE23TEXL8I3482A3EA74E1338UEXG8K3281E188EA7b6EXF8732E931E2A5EFA4823X2",
  "EXG8H32A1E18BEA7X6EXB8D3187EA76EK7SER82EF34EA72E3A1E78bPEXC8F3Z5EX0DX06A7LE882E182E881E281EO",
  "8631E232E43181318231A1E1A9EA7Y6E882EX78732E73181E1813RE18A3X887318433E2A3E138E18B3XE8G31E2A1",
  "8IEY98c7EX18FEA76E981EX58831E83182ADEA7OEU82EM31EE3Y9E781E281EX68633E131E231E7318138EA76E681",
  "E281EX08531E231E53187EA7fMEJ8432A7E231813D81EX28733E532ABEA713YLE18YFEyQ8Z6EZF8HEc48YoCEZ18F",
  "EXXG8G41368F3AEZyR85Eo78crPEU8I3A7Xs6EnP87EV81EA74E2AYF81EA76EU82E531AAEXG8732A7E481ABEA79EL",
  "85EJ8jGEXD81E2AA7c6EX0DX06OE1AZ7EYB84E1318XN37E43D8Y0E281E1813BE23EEb-O88EXcM8X9EA8et7E481E7",
  "81E281Ef38FE18TE382E18EE488EiC8Ye4EZB85ED83E987EA83E231A44aYCEA7m6EXE32EN3mUE533E6384832E73U",
  "E43aKE33jREQDQ6QD761EI6QDQ61D1E2D2E1D2E2D2E4D1E8D461E161E761EB6QDQ62D1E4D2E8D1E7D1EQ62D1E4D1",
  "E5D1E1D3E7D1EQ6QDQ6QDQ6QDQ6QDQ6QDQ6QDS62EPD1EP61E66PD1EP61E66PD1EP61E66PD1EP61E66PD1EP61E661",
  "D162EXI7m0EXN34EXI38E13EE133E1AIE531EF3XYGEA618K66E66cLE731EH32E731E231E535EXU6X1E13ZGEXD83E",
  "73782EA74E18g1EU813HEXC843A7kMES843A7cMEU82318A7l5E781E481E281EF81Ec58BE73X9EX2DX2673184EA7X",
  "b6E481ER81E281E182E181EA81E481E181E186E184E181E181E181E381E281E182E181E181E181E181E181E281E1",
  "82E481E781E481E481E181EA81EH85E381E581EH8pKEQD6EQD6EQDXdCE32XhNEA7XW6EXft08X0EaXQ86EcU82Ebq2",
  "8EEdfH8FEpE8Yj2EmU8Xl2EawB85EaZ08rtYHE14UEZ03a0EdG3b-mGE"]

end AttrGrammar.Text.Unicode
